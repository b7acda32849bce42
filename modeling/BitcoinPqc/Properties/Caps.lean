import BitcoinPqc.Correctness.Layout
import BitcoinPqc.Properties.Statistics

/-!
# The signing caps

A cap ends a search early and does nothing else. A build with larger caps finds what a
build with smaller caps finds, because both take the least salt and the least counters,
and it writes the same signature and the same statistics. The verifier searches without
a cap, so all builds agree on every signature.
-/

namespace BitcoinPqc

variable {E E' : Build} {H : HashFns} {m : List UInt8} {sk : Vector UInt8 64}
  {T T' : ThreadState}

/-- The salt loop under a larger cap ends at the same salt. -/
theorem signGrind_of_le (hforsc : E.forscMaxGrindAttempts ≤ E'.forscMaxGrindAttempts)
    (hsource : T.clearFailure.randombytesBlock.1 = T'.clearFailure.randombytesBlock.1)
    (hcode : (signGrind E H m sk T).code = 0) :
    (signGrind E' H m sk T').code = 0 ∧
      (signGrind E' H m sk T').tree = (signGrind E H m sk T).tree ∧
      (signGrind E' H m sk T').idxLeaf = (signGrind E H m sk T).idxLeaf ∧
      (signGrind E' H m sk T').R = (signGrind E H m sk T).R ∧
      (signGrind E' H m sk T').mhash = (signGrind E H m sk T).mhash := by
  unfold signGrind grindOutcome at *
  rw [← hsource]
  cases hfirst : firstUpTo (RunSaltHit H m sk T) (E.forscMaxGrindAttempts - 1) with
  | some k =>
      have hfirst' := firstUpTo_mono _ (Nat.sub_le_sub_right hforsc 1) hfirst
      rw [hfirst']
      exact ⟨rfl, rfl, rfl, rfl, rfl⟩
  | none =>
      rw [hfirst] at hcode
      cases hcode

theorem attemptsBelow_of_le (hwotsc : E.wotscMaxCounter ≤ E'.wotscMaxCounter) {ctx : SpxCtx}
    {tree leaf n : ℕ} (hsearch : Searchable H ctx tree leaf E.wotscMaxCounter n) :
    attemptsBelow E' H ctx tree leaf n = attemptsBelow E H ctx tree leaf n := by
  refine List.map_congr_left fun l hl => ?_
  obtain ⟨c, hc⟩ := hsearch l (List.mem_range.mp hl)
  rw [attemptsAt, attemptsAt, hc, firstUpTo_mono _ hwotsc hc, Option.elim_some,
    Option.elim_some]

/-- Everything that is searched for is found under larger caps. -/
theorem searchable_of_le {ctx : SpxCtx} {tree leaf n bound bound' : ℕ} (hle : bound ≤ bound')
    (hsearch : Searchable H ctx tree leaf bound n) :
    Searchable H ctx tree leaf bound' n := by
  intro l hl
  obtain ⟨c, hc⟩ := hsearch l hl
  exact ⟨c, firstUpTo_mono _ hle hc⟩

theorem Signed.sig_eq_of_le (hforsc : E.forscMaxGrindAttempts ≤ E'.forscMaxGrindAttempts)
    (hsource : T.clearFailure.randombytesBlock.1 = T'.clearFailure.randombytesBlock.1)
    {r r' : SignResult} (h : Signed E H m sk T r) (h' : Signed E' H m sk T' r') :
    r'.sig = r.sig := by
  obtain ⟨_, htree, hleaf, hR, hmhash⟩ := signGrind_of_le hforsc hsource h.grind
  have hsig := h'.sig
  rw [htree, hleaf, hR, hmhash] at hsig
  exact hsig.unique h.sig

theorem cryptoSignSignature_of_le (hforsc : E.forscMaxGrindAttempts ≤ E'.forscMaxGrindAttempts)
    (hwotsc : E.wotscMaxCounter ≤ E'.wotscMaxCounter)
    (hsource : T.clearFailure.randombytesBlock.1 = T'.clearFailure.randombytesBlock.1)
    (hdata : T.randomData.isSome) (hsize : T.randomDataSize ≠ 0)
    (hstats : T.signStats = some (statsOf E 0 [] limitNone)) (hdata' : T'.randomData.isSome)
    (hsize' : T'.randomDataSize ≠ 0)
    (hstats' : T'.signStats = some (statsOf E' 0 [] limitNone)) (sig sig' : Vector UInt8 3680)
    (hcode : (cryptoSignSignature E H sig m sk T).val.code = 0) :
    (cryptoSignSignature E' H sig' m sk T').val.code = 0 ∧
      ∃ s, (cryptoSignSignature E H sig m sk T).val.T.signStats = some s ∧
        (cryptoSignSignature E' H sig' m sk T').val.T.signStats = some
          { s with
            forscMaxAttempts := E'.forscMaxGrindAttempts
            wotscMaxAttempts := E'.wotscMaxCounter + 1 } := by
  obtain ⟨_, hgrind, hsearch⟩ := (cryptoSignSignature_eq_zero_iff E H sig m sk T).mp hcode
  obtain ⟨hgrind', htree, hleaf, _, _⟩ := signGrind_of_le hforsc hsource hgrind
  rw [wotscBound_of_signStats hstats] at hsearch
  have hcode' : (cryptoSignSignature E' H sig' m sk T').val.code = 0 := by
    rw [cryptoSignSignature_eq_zero_iff, wotscBound_of_signStats hstats', htree, hleaf]
    exact ⟨ThreadState.randomSourceFailed_randombytesBlock hdata' hsize', hgrind',
      searchable_of_le hwotsc hsearch⟩
  refine ⟨hcode', ?_⟩
  have hcase := statsCase_cryptoSignSignature (H := H) m sk hdata hsize hstats sig
  have hcase' := statsCase_cryptoSignSignature (H := H) m sk hdata' hsize' hstats' sig'
  obtain ⟨s, hs⟩ := hcase.exists_stats
  obtain ⟨s', hs'⟩ := hcase'.exists_stats
  rw [hcode, hs] at hcase
  rw [hcode', hs'] at hcase'
  refine ⟨s, hs, hs'.trans ?_⟩
  cases hcase with
  | signed k hk hcounters =>
    cases hcase' with
    | signed k' hk' hcounters' =>
        have hsame := firstUpTo_mono _ (Nat.sub_le_sub_right hforsc 1) hk
        unfold RunSaltHit at hsame hk'
        rw [hsource, hk'] at hsame
        cases hsame
        rw [runAttempts, runAttempts, htree, hleaf, attemptsBelow_of_le hwotsc hsearch]
        rfl

/-!
## The public functions
-/

/-- The thread of a signing run differs between builds only in the caps that the stats
object states. -/
theorem randombytesBlock_signThread (E E' : Build) (H : HashFns) (message : List UInt8)
    (mlen : ℕ) (sk : List UInt8) :
    (signThread E H message mlen sk).clearFailure.randombytesBlock.1 =
      (signThread E' H message mlen sk).clearFailure.randombytesBlock.1 := rfl

theorem slhDsaVerify_build (E E' : Build) (H : HashFns) (sig : Option (List UInt8))
    (siglen : ℕ) (m : Option (List UInt8)) (mlen : ℕ) (pk : Option (List UInt8))
    {T T' : ThreadState} (hT : T.Clean) (hT' : T'.Clean) :
    (slhDsaVerify E H sig siglen m mlen pk T).val.1 =
      (slhDsaVerify E' H sig siglen m mlen pk T').val.1 := by
  have hbound : wotscBound E T = wotscBound E' T' := by
    rw [hT.wotscBound_eq, hT'.wotscBound_eq]
  rw [slhDsaVerify.eq_def, slhDsaVerify.eq_def]
  split
  · split
    · rfl
    · exact cryptoSignVerify_congr hbound _ _ _ _
  · rfl

theorem bitcoinPqcVerify_build (E E' : Build) (H : HashFns) (publicKey : Option (List UInt8))
    (publicKeySize : ℕ) (message : Option (List UInt8)) (messageSize : ℕ)
    (signature : Option (List UInt8)) (signatureSize : ℕ) {T T' : ThreadState}
    (hT : T.Clean) (hT' : T'.Clean) :
    (bitcoinPqcVerify E H publicKey publicKeySize message messageSize signature signatureSize
        T).1 =
      (bitcoinPqcVerify E' H publicKey publicKeySize message messageSize signature
        signatureSize T').1 := by
  rw [bitcoinPqcVerify, bitcoinPqcVerify]
  dsimp only
  rw [slhDsaVerify_build E E' H _ _ _ _ _ hT hT']
  split
  · rfl
  · split
    · rfl
    · split
      · rfl
      · split
        · rfl
        · split
          · rfl
          · rfl

section Succeeded

variable {sig : Vector UInt8 3680} {siglen : ℕ} {message : Option (List UInt8)} {mlen : ℕ}
  {sk : List UInt8} {stats : Option SignStats} {T : ThreadState}
  (h : (slhDsaSignWithStats E H (some sig) (some siglen) message mlen (some sk) stats
    T).val.code = 0)

include h

theorem signed_with_accepted_key : ¬ (message.isNone ∧ mlen ≠ 0) ∧ KeyAccepted H sk ∧
    ∃ r₀, Signed E H ((message.getD [0]).take mlen) (bytesAt 64 sk)
        (signThread E H (message.getD [0]) mlen sk) r₀ ∧
      (slhDsaSignWithStats E H (some sig) (some siglen) message mlen (some sk) stats
        T).val.sig = some r₀.sig ∧
      (slhDsaSignWithStats E H (some sig) (some siglen) message mlen (some sk) stats
        T).val.siglen = some spxBytes := by
  have hm : ¬ (message.isNone ∧ mlen ≠ 0) := by
    intro hm
    rw [slhDsaSignWithStats, slhDsaSignWithStatsImpl, if_pos hm] at h
    cases h
  have hcase := signCase_slhDsaSignWithStats E H sig siglen hm sk stats T
  generalize (slhDsaSignWithStats E H (some sig) (some siglen) message mlen (some sk) stats
    T).val = r at hcase h
  cases hcase with
  | badKey hkey T' => cases h
  | limit hkey hlimit stats' T' => cases h
  | signed hkey hlimit r₀ T' hT' hsigned => exact ⟨hm, hkey, r₀, hsigned, rfl, rfl⟩

theorem accepted_of_signed : ¬ (message.isNone ∧ mlen ≠ 0) ∧ KeyAccepted H sk :=
  ⟨(signed_with_accepted_key h).1, (signed_with_accepted_key h).2.1⟩

theorem signed_of_code_eq_zero :
    ∃ r₀, Signed E H ((message.getD [0]).take mlen) (bytesAt 64 sk)
        (signThread E H (message.getD [0]) mlen sk) r₀ ∧
      (slhDsaSignWithStats E H (some sig) (some siglen) message mlen (some sk) stats
        T).val.sig = some r₀.sig ∧
      (slhDsaSignWithStats E H (some sig) (some siglen) message mlen (some sk) stats
        T).val.siglen = some spxBytes :=
  (signed_with_accepted_key h).2.2

end Succeeded

/-- A build with larger caps signs what a build with smaller caps signs, with the same
bytes and statistics that differ in the stated caps only. All builds reach the same
verdicts, and accept what any of them signed. -/
theorem caps_monotone (E E' : Build) (H : HashFns) :
    (∀ (sig sig' : Vector UInt8 3680) (siglen siglen' : ℕ) (message : Option (List UInt8))
        (mlen : ℕ) (sk : List UInt8) (stats stats' : SignStats) (T T' : ThreadState),
      let r := (slhDsaSignWithStats E H (some sig) (some siglen) message mlen (some sk)
        (some stats) T).val
      let r' := (slhDsaSignWithStats E' H (some sig') (some siglen') message mlen (some sk)
        (some stats') T').val
      E.forscMaxGrindAttempts ≤ E'.forscMaxGrindAttempts →
      E.wotscMaxCounter ≤ E'.wotscMaxCounter → r.code = 0 →
        r'.code = 0 ∧ r'.sig = r.sig ∧ r.siglen = some 3680 ∧ r'.siglen = some 3680 ∧
          ∃ s, r.stats = some s ∧ r'.stats = some
            { s with
              forscMaxAttempts := E'.forscMaxGrindAttempts
              wotscMaxAttempts := E'.wotscMaxCounter + 1 }) ∧
      (∀ (sig : Vector UInt8 3680) (siglen : ℕ) (message : Option (List UInt8)) (mlen : ℕ)
          (sk : List UInt8) (stats : Option SignStats) (T : ThreadState),
        let r := (slhDsaSignWithStats E H (some sig) (some siglen) message mlen (some sk) stats
          T).val
        r.code = 0 → ∃ v : Vector UInt8 3680, r.sig = some v ∧
          ∀ (E₂ : Build) (T₂ : ThreadState), T₂.Clean →
            (bitcoinPqcVerify E₂ H (some (sk.drop 32)) slhDsaPublicKeySize message mlen
              (some v.toList) slhDsaSignatureSize T₂).1 = .ok) ∧
      ∀ (publicKey : Option (List UInt8)) (publicKeySize : ℕ) (message : Option (List UInt8))
        (messageSize : ℕ) (signature : Option (List UInt8)) (signatureSize : ℕ)
        (T T' : ThreadState), T.Clean → T'.Clean →
        (bitcoinPqcVerify E H publicKey publicKeySize message messageSize signature
            signatureSize T).1 =
          (bitcoinPqcVerify E' H publicKey publicKeySize message messageSize signature
            signatureSize T').1 := by
  refine ⟨?_, ?_, ?_⟩
  · intro sig sig' siglen siglen' message mlen sk stats stats' T T' r r' hforsc hwotsc hsign
    obtain ⟨hm, hkey⟩ := accepted_of_signed hsign
    obtain ⟨r₀, hsigned, hsig, hsiglen⟩ := signed_of_code_eq_zero hsign
    obtain ⟨hcode, hstats⟩ :=
      slhDsaSignWithStats_of_accepted E sig siglen hm hkey (some stats) T
    obtain ⟨hcode', hstats'⟩ :=
      slhDsaSignWithStats_of_accepted E' sig' siglen' hm hkey (some stats') T'
    obtain ⟨hzero, s, hs, hs'⟩ := cryptoSignSignature_of_le hforsc hwotsc
      (randombytesBlock_signThread E E' H (message.getD [0]) mlen sk) rfl
      (show (64 : ℕ) ≠ 0 by decide) (signStats_signStatsBegin E _) rfl
      (show (64 : ℕ) ≠ 0 by decide) (signStats_signStatsBegin E' _) sig sig'
      (hcode.symm.trans hsign)
    rw [hzero] at hcode'
    obtain ⟨r₀', hsigned', hsig', hsiglen'⟩ := signed_of_code_eq_zero hcode'
    refine ⟨hcode', ?_, hsiglen, hsiglen', s, ?_, ?_⟩
    · rw [hsig, hsig', hsigned.sig_eq_of_le hforsc
        (randombytesBlock_signThread E E' H (message.getD [0]) mlen sk) hsigned']
    · rw [hstats, Option.bind_some, hs]
    · rw [hstats', Option.bind_some, hs']
  · intro sig siglen message mlen sk stats T r hsign
    obtain ⟨hm, hkey⟩ := accepted_of_signed hsign
    obtain ⟨r₀, hsigned, hsig, _⟩ := signed_of_code_eq_zero hsign
    exact ⟨r₀.sig, hsig, fun E₂ T₂ h₂ =>
      bitcoinPqcVerify_of_accepted hm (hsigned.slhDsaVerify hkey E₂ h₂)⟩
  · intro publicKey publicKeySize message messageSize signature signatureSize T T' hT hT'
    exact bitcoinPqcVerify_build E E' H publicKey publicKeySize message messageSize signature
      signatureSize hT hT'

/-- Caps that are as large as the header permits. -/
def largestCaps : Build where
  forscMaxGrindAttempts := 0xFFFFFFFF
  wotscMaxCounter := 0xFFFF
  hasAvx2 := false
  uninit := fun _ => Vector.replicate 16 0
  forsc_pos := Nat.succ_pos _
  forsc_le := Nat.le_refl 0xFFFFFFFF
  wotsc_le := Nat.le_refl 0xFFFF

/-- The smallest and the largest caps, with the hash functions that ignore their input. -/
theorem caps_monotone_constantHash :
    (slhDsaSignWithStats largestCaps constantHash (some (Vector.replicate 3680 1)) (some 7)
      (some [1]) 1 (some (List.replicate 64 0)) (some (statsOf largestCaps 0 [] 0))
      ThreadState.fresh).val.code = 0 := by
  have hsign := slhDsaSignWithStats_constantHash smallestCaps (Vector.replicate 3680 0) 0 [1] 1
    (some (statsOf smallestCaps 0 [] 0)) ThreadState.fresh
  exact ((caps_monotone smallestCaps largestCaps constantHash).1
    (Vector.replicate 3680 0) (Vector.replicate 3680 1) 0 7 (some [1]) 1
    (List.replicate 64 0) (statsOf smallestCaps 0 [] 0) (statsOf largestCaps 0 [] 0)
    ThreadState.fresh ThreadState.fresh (by decide) (by decide) hsign).1

end BitcoinPqc
