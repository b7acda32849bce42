import BitcoinPqc.Api.SlhDsa
import BitcoinPqc.Correctness.Merkle

/-!
# Generated keys and the keys that are accepted

A secret key is a seed followed by the root of the top subtree of that seed. Key
generation writes such a key and the validator accepts nothing else. Both compute the
root with `merkle_gen_root`, whose sentinel leaf index signs nothing, so neither of
them runs a counter search and neither depends on what the output buffers held.
-/

namespace BitcoinPqc

variable (E : Build) (H : HashFns)

/-- The hash context of a key seed. -/
def seedCtx (seed : Vector UInt8 48) : SpxCtx :=
  initializeHashFunction H
    { pubSeed := slice seed (2 * spxN) spxN
      skSeed := slice seed 0 spxN
      stateSeeded := Vector.replicate 40 0 }

/-- The root that belongs to a key seed. -/
def seedRoot (seed : Vector UInt8 48) : Block := treeRoot H (seedCtx H seed) (spxD - 1) 0

/-- The root that belongs to the seeds in a secret key. -/
def skRoot (sk : Vector UInt8 64) : Block := treeRoot H (skCtx H sk) (spxD - 1) 0

theorem skCtx_eq_seedCtx (sk : Vector UInt8 64) :
    skCtx H sk = seedCtx H (slice sk 0 48) := by
  have hpub : slice (slice sk 0 48) (2 * spxN) spxN = slice sk (2 * spxN) spxN := by
    rw [slice_slice _ _ _ _ _ (by decide) (by decide), Nat.zero_add]
  have hseed : slice (slice sk 0 48) 0 spxN = slice sk 0 spxN := by
    rw [slice_slice _ _ _ _ _ (by decide) (by decide)]
  rw [skCtx, seedCtx, hpub, hseed]

/-!
## Key generation
-/

/-- What key generation leaves for a seed. -/
def seedKeypair (seed : Vector UInt8 48) (T : ThreadState) : KeypairResult :=
  ⟨0, slice seed 32 16 ++ seedRoot H seed, seed ++ seedRoot H seed, T⟩

variable {P : Query → Prop}

theorem cryptoSignSeedKeypair_sat (seed : Vector UInt8 48)
    (hP : CallsOk E H (seedCtx H seed) P) (pk : Vector UInt8 32) (sk : Vector UInt8 64)
    (T : ThreadState) :
    Traced.Sat P (fun r => r = seedKeypair H seed T)
      (cryptoSignSeedKeypair E H pk sk seed T) := by
  have hpub : slice (write sk 0 seed) (2 * spxN) spxN = slice seed (2 * spxN) spxN := by
    have hsub := slice_write_of_subset sk 0 seed (2 * spxN) spxN (by decide) (by decide)
    rwa [Nat.zero_add] at hsub
  have hsk : slice (write sk 0 seed) 0 spxN = slice seed 0 spxN :=
    slice_write_of_subset sk 0 seed 0 spxN (by decide) (by decide)
  have hctx : initializeHashFunction H
      { pubSeed := slice (write pk 0 (slice (write sk 0 seed) (2 * spxN) spxN)) 0 spxN
        skSeed := slice (write sk 0 seed) 0 spxN
        stateSeeded := Vector.replicate 40 0 } = seedCtx H seed := by
    rw [slice_write_self _ _ _ (by decide), hpub, hsk]
    rfl
  rw [cryptoSignSeedKeypair]
  simp only [hctx]
  refine Traced.Sat.bind (merkleGenRoot_sat E hP _ T) ?_
  rintro _ rfl
  simp only [ne_eq, not_true_eq_false, if_false]
  have hskFull : write (write sk 0 seed) (3 * spxN) (seedRoot H seed) =
      seed ++ seedRoot H seed := by
    have happ := write_append sk 0 seed (seedRoot H seed)
    rw [Nat.zero_add] at happ
    exact happ.symm.trans (write_full _ _)
  have hpkFull : write (write pk 0 (slice seed (2 * spxN) spxN)) spxN (seedRoot H seed) =
      slice seed (2 * spxN) spxN ++ seedRoot H seed := by
    have happ := write_append pk 0 (slice seed (2 * spxN) spxN) (seedRoot H seed)
    rw [Nat.zero_add] at happ
    exact happ.symm.trans (write_full _ _)
  refine Traced.Sat.pure ?_
  rw [slice_write_self _ _ _ (by decide), hpub, ← seedRoot, hskFull, hpkFull]
  rfl

/-!
## The validator
-/

theorem bytesEqual_eq_true_iff (lhs rhs : Block) : bytesEqual lhs rhs = true ↔ lhs = rhs := by
  have hfold (is : List (Fin 16)) (diff : UInt8) :
      is.foldl (fun diff i => diff ||| (lhs[i] ^^^ rhs[i])) diff = 0 ↔
        diff = 0 ∧ ∀ i ∈ is, lhs[i] = rhs[i] := by
    induction is generalizing diff with
    | nil => simp
    | cons i is ih =>
        rw [List.foldl_cons, ih, UInt8.or_eq_zero_iff, UInt8.xor_eq_zero_iff]
        simp [and_assoc]
  rw [bytesEqual, decide_eq_true_iff, hfold]
  constructor
  · rintro ⟨_, h⟩
    ext i hi
    exact congrArg UInt8.toNat (h ⟨i, hi⟩ (List.mem_finRange _))
  · rintro rfl
    exact ⟨rfl, fun _ _ => rfl⟩

/-- A key of the right size is accepted when it ends in the root of its seeds. -/
theorem slhDsaSecretKeyValidate_sat (sk : List UInt8)
    (hP : CallsOk E H (skCtx H (bytesAt 64 sk)) P) (T : ThreadState) :
    Traced.Sat P
      (fun r => r = (if skRoot H (bytesAt 64 sk) = slice (bytesAt 64 sk) (3 * spxN) spxN
        then 0 else -1, T))
      (slhDsaSecretKeyValidateUnburned E H (some sk) slhDsaSecretKeySize T) := by
  simp only [slhDsaSecretKeyValidateUnburned]
  rw [if_neg (not_not_intro rfl)]
  refine Traced.Sat.bind (merkleGenRoot_sat E hP _ T) ?_
  rintro _ rfl
  simp only [ne_eq, not_true_eq_false, if_false, bytesEqual_eq_true_iff]
  rw [← skRoot]
  split
  · exact Traced.Sat.pure rfl
  · exact Traced.Sat.pure rfl

theorem slhDsaSecretKeyValidate_val (sk : Vector UInt8 64) (T : ThreadState) :
    (slhDsaSecretKeyValidate E H (some sk.toList) slhDsaSecretKeySize T).val =
      (if skRoot H sk = slice sk (3 * spxN) spxN then 0 else -1, T) := by
  have hsat := slhDsaSecretKeyValidate_sat E H sk.toList (callsOk_true E H _) T
  rw [bytesAt_toList] at hsat
  exact hsat.2

theorem slhDsaSecretKeyValidate_eq_zero_iff (sk : Vector UInt8 64) (T : ThreadState) :
    (slhDsaSecretKeyValidate E H (some sk.toList) slhDsaSecretKeySize T).val.1 = 0 ↔
      skRoot H sk = slice sk (3 * spxN) spxN := by
  rw [slhDsaSecretKeyValidate_val]
  simp

theorem cryptoSignSeedKeypair_val (seed : Vector UInt8 48) (pk : Vector UInt8 32)
    (sk : Vector UInt8 64) (T : ThreadState) :
    (cryptoSignSeedKeypair E H pk sk seed T).val = seedKeypair H seed T :=
  (cryptoSignSeedKeypair_sat E H seed (callsOk_true E H _) pk sk T).2

theorem seed_append_root_eq_iff (sk : Vector UInt8 64) :
    slice sk 0 48 ++ seedRoot H (slice sk 0 48) = sk ↔
      skRoot H sk = slice sk (3 * spxN) spxN := by
  have hsplit : (slice sk 0 48 ++ slice sk (3 * spxN) spxN : Vector UInt8 (48 + 16)) = sk :=
    slice_append_slice (k := 48) (l := 16) sk
  rw [skRoot, skCtx_eq_seedCtx, ← seedRoot]
  constructor
  · intro h
    exact Vector.append_inj_right (h.trans hsplit.symm)
  · intro h
    rw [h]
    exact hsplit

/-- What a successful call of `slh_dsa_keygen` leaves is the key pair of the seed that is
derived from its entropy. -/
theorem slhDsaKeygen_eq_zero (A : Allocator) {pk : Option (Vector UInt8 32)}
    {sk : Option (Vector UInt8 64)} {randomData : Option (List UInt8)}
    {randomDataSize : ℕ} {heap : Heap} {T : ThreadState}
    (h : (slhDsaKeygen E H A pk sk randomData randomDataSize heap T).val.code = 0) :
    ∃ seed : Vector UInt8 48,
      (slhDsaKeygen E H A pk sk randomData randomDataSize heap T).val.sk =
          some (seed ++ seedRoot H seed) ∧
        (slhDsaKeygen E H A pk sk randomData randomDataSize heap T).val.pk =
          some (slice seed (2 * spxN) spxN ++ seedRoot H seed) ∧
        keygenInputSize randomDataSize ≤ sizeMax ∧
        ∀ entropy, randomData = some entropy → randomDataSize ≤ entropy.length →
          seed = slice (H.sha512 (keygenInput entropy randomDataSize)) 0 48 := by
  unfold slhDsaKeygen slhDsaKeygenImpl at *
  split at h
  · next pk sk randomData =>
      split at h
      · cases h
      · next hsize =>
          simp only [hsize, if_false]
          rcases deriveKeygenSeedV1_cases H A randomData randomDataSize heap with
            ⟨_, hderive⟩ | ⟨_, _, hderive⟩ | ⟨hfits, input, seed, _, hseed, hderive⟩
          · rw [hderive] at h
            cases h
          · rw [hderive] at h
            cases h
          · have hval := cryptoSignSeedKeypair_val E H seed pk sk T
            rw [hderive]
            simp only [Traced.val_bind, hval, Traced.val_pure]
            refine ⟨seed, rfl, rfl, hfits, ?_⟩
            rintro entropy ⟨⟩ hlen
            exact hseed hlen
  · cases h

/-- The validator accepts exactly the keys that key generation writes. Key generation
always succeeds, searches for no counter and overwrites both outputs with the seeds and the
root of the top subtree, which is what `merkle_gen_root` computes whatever its output held.
What `slh_dsa_keygen` leaves on success is accepted and carries its own public key. -/
theorem secretKeyValidate_eq_zero_iff_generated :
    (∀ (E E' : Build) (sk : Vector UInt8 64) (pk₀ : Vector UInt8 32)
        (sk₀ : Vector UInt8 64) (T T' : ThreadState),
      (slhDsaSecretKeyValidate E H (some sk.toList) slhDsaSecretKeySize T).val.1 = 0 ↔
        (cryptoSignSeedKeypair E' H pk₀ sk₀ (slice sk 0 48) T').val.sk = sk) ∧
      (∀ (E : Build) (sk : Option (List UInt8)) (skSize : ℕ) (T : ThreadState),
        skSize ≠ slhDsaSecretKeySize →
          (slhDsaSecretKeyValidate E H sk skSize T).val.1 ≠ 0) ∧
      (∀ (E : Build) (seed : Vector UInt8 48) (pk₀ : Vector UInt8 32)
        (sk₀ : Vector UInt8 64) (root₀ : Block) (T : ThreadState),
          (cryptoSignSeedKeypair E H pk₀ sk₀ seed T).val =
            ⟨0, slice seed 32 16 ++ seedRoot H seed, seed ++ seedRoot H seed, T⟩ ∧
          (merkleGenRoot E H root₀ (seedCtx H seed) T).val = (0, seedRoot H seed, T) ∧
          ∀ msg counter,
            .wotscHash msg counter ∉ (cryptoSignSeedKeypair E H pk₀ sk₀ seed T).log) ∧
      ∀ (E : Build) (A : Allocator) (pk₀ : Option (Vector UInt8 32))
        (sk₀ : Option (Vector UInt8 64)) (randomData : Option (List UInt8))
        (randomDataSize : ℕ) (heap : Heap) (T : ThreadState),
        (slhDsaKeygen E H A pk₀ sk₀ randomData randomDataSize heap T).val.code = 0 →
          ∃ sk : Vector UInt8 64,
            (slhDsaKeygen E H A pk₀ sk₀ randomData randomDataSize heap T).val.sk = some sk ∧
            (slhDsaKeygen E H A pk₀ sk₀ randomData randomDataSize heap T).val.pk =
              some (slice sk 32 32) ∧
            ∀ (E' : Build) (T' : ThreadState),
              (slhDsaSecretKeyValidate E' H (some sk.toList) slhDsaSecretKeySize
                T').val.1 = 0 := by
  refine ⟨?_, ?_, ?_, ?_⟩
  · intro E E' sk pk₀ sk₀ T T'
    rw [slhDsaSecretKeyValidate_eq_zero_iff, cryptoSignSeedKeypair_val, seedKeypair,
      seed_append_root_eq_iff]
  · intro E sk skSize T hsize
    cases sk with
    | none => exact (by decide : (-1 : Int) ≠ 0)
    | some sk =>
        rw [slhDsaSecretKeyValidate, slhDsaSecretKeyValidateUnburned, if_pos hsize]
        exact (by decide : (-1 : Int) ≠ 0)
  · intro E seed pk₀ sk₀ root₀ T
    have hP : AnyHash fun q => ∀ msg counter, q ≠ .wotscHash msg counter := by
      constructor
      · intro a i o msg counter h
        cases h
      · intro a s o msg counter h
        cases h
    have hsat := cryptoSignSeedKeypair_sat E H seed (CallsOk.of_anyHash hP) pk₀ sk₀ T
    exact ⟨hsat.2, (merkleGenRoot_sat E (callsOk_true E H (seedCtx H seed)) root₀ T).2,
      fun msg counter hmem => hsat.1 _ hmem msg counter rfl⟩
  · intro E A pk₀ sk₀ randomData randomDataSize heap T hcode
    obtain ⟨seed, hsk, hpk, _⟩ := slhDsaKeygen_eq_zero E H A hcode
    have hseed : slice (seed ++ seedRoot H seed : Vector UInt8 64) 0 48 = seed :=
      slice_append_left seed (seedRoot H seed)
    have hroot : skRoot H (seed ++ seedRoot H seed) =
        slice (seed ++ seedRoot H seed : Vector UInt8 64) (3 * spxN) spxN := by
      rw [← seed_append_root_eq_iff, hseed]
    refine ⟨_, hsk, ?_, ?_⟩
    · rw [hpk]
      exact congrArg some (slice_append_right seed (seedRoot H seed) 32 16 rfl).symm
    · intro E' T'
      exact (slhDsaSecretKeyValidate_eq_zero_iff E' H _ T').mpr hroot

end BitcoinPqc
