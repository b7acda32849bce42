import BitcoinPqc.Foundation.Heap
import BitcoinPqc.Sphincs.Sign

/-!
# The `slh_dsa_*` functions

The code of `src/slh_dsa`. A pointer argument is an `Option` of what it points to,
with `none` for NULL. An input buffer is a list of bytes next to the size the caller
passes, of which the functions read as many bytes as the code does. An output buffer
is passed with its previous contents and returned with its contents after the call.

Overwriting local buffers and burning the stack have no effect that a caller can
observe and are left out. The seed-derivation buffer of key generation is a heap
buffer and is released on the heap.
-/

namespace BitcoinPqc

variable (E : Build) (H : HashFns)

/-- `SLH_DSA_SECRET_KEY_SIZE`. -/
@[simp] abbrev slhDsaSecretKeySize : ℕ := 64

/-- `SLH_DSA_PUBLIC_KEY_SIZE`. -/
@[simp] abbrev slhDsaPublicKeySize : ℕ := 32

/-- `SLH_DSA_SIGNATURE_SIZE`. -/
@[simp] abbrev slhDsaSignatureSize : ℕ := 3680

/-- `SLH_DSA_KEYGEN_RANDOM_DATA_MIN_SIZE`. -/
@[simp] abbrev slhDsaKeygenRandomDataMinSize : ℕ := 128

/-- `SLH_DSA_SIGN_ERROR_BAD_KEY`. -/
abbrev slhDsaSignErrorBadKey : Int := -101

/-- `SLH_DSA_KEYGEN_ERROR_OUT_OF_MEMORY`. -/
abbrev slhDsaKeygenErrorOutOfMemory : Int := -102

/-- `SIZE_MAX`. -/
abbrev sizeMax : ℕ := 2 ^ 64 - 1

/-!
## Secret key validation
-/

/-- `bytes_equal` on two blocks. -/
def bytesEqual (lhs rhs : Block) : Bool :=
  (List.finRange spxN).foldl (fun diff i => diff ||| (lhs[i] ^^^ rhs[i])) (0 : UInt8) = 0

/-- `slh_dsa_secret_key_validate_unburned`. -/
def slhDsaSecretKeyValidateUnburned (sk : Option (List UInt8)) (skSize : ℕ)
    (T : ThreadState) : Traced Query (Int × ThreadState) :=
  match sk with
  | none => pure (-1, T)
  | some sk =>
      if skSize ≠ slhDsaSecretKeySize then pure (-1, T)
      else do
        let sk := bytesAt 64 sk
        let (code, root, T) ← merkleGenRoot E H (Vector.replicate 16 0) (skCtx H sk) T
        if code ≠ 0 then pure (-1, T)
        else if bytesEqual root (slice sk (3 * spxN) spxN) then pure (0, T)
        else pure (-1, T)

/-- `slh_dsa_secret_key_validate`. -/
def slhDsaSecretKeyValidate (sk : Option (List UInt8)) (skSize : ℕ) (T : ThreadState) :
    Traced Query (Int × ThreadState) :=
  slhDsaSecretKeyValidateUnburned E H sk skSize T

/-!
## Verification
-/

/-- `slh_dsa_verify`. -/
def slhDsaVerify (sig : Option (List UInt8)) (siglen : ℕ) (m : Option (List UInt8))
    (mlen : ℕ) (pk : Option (List UInt8)) (T : ThreadState) :
    Traced Query (Int × ThreadState) :=
  match sig, pk with
  | some sig, some pk =>
      if m.isNone ∧ mlen ≠ 0 then pure (-1, T)
      else
        let message := m.getD [0]
        cryptoSignVerify E H (bytesAt 3680 sig) siglen (message.take mlen) (bytesAt 32 pk) T
  | _, _ => pure (-1, T)

/-!
## Signing
-/

/-- `slh_dsa_derandomize_unburned`, with the previous contents of `seed`. -/
def slhDsaDerandomizeUnburned (seed : Option (Vector UInt8 64)) (m : Option (List UInt8))
    (mlen : ℕ) (sk : Option (List UInt8)) (T : ThreadState) :
    Option (Vector UInt8 64) × ThreadState :=
  match seed, sk with
  | some seed, some sk =>
      if m.isNone ∧ mlen ≠ 0 then
        (some (Vector.replicate 64 0), T.markRandomSourceFailed)
      else
        let message := m.getD [0]
        let digest0 := H.sha256Inc (bytesAt 64 sk) (message.take mlen)
        let seed := write seed 0 digest0
        (some (write seed 32 (H.sha256 (digest0.toList ++ [1]))), T)
  | seed, _ => (seed.map fun _ => Vector.replicate 64 0, T.markRandomSourceFailed)

/-- `slh_dsa_derandomize`. -/
def slhDsaDerandomize (seed : Option (Vector UInt8 64)) (m : Option (List UInt8))
    (mlen : ℕ) (sk : Option (List UInt8)) (T : ThreadState) :
    Option (Vector UInt8 64) × ThreadState :=
  slhDsaDerandomizeUnburned H seed m mlen sk T

/-- What `slh_dsa_sign_with_stats` returns and leaves in its outputs. -/
structure SlhDsaSignResult where
  code : Int
  sig : Option (Vector UInt8 3680)
  siglen : Option ℕ
  stats : Option SignStats
  T : ThreadState

/-- `slh_dsa_sign_with_stats_impl` after the checks of the arguments and of the key. -/
def slhDsaSignChecked (sig : Vector UInt8 3680) (message : List UInt8) (mlen : ℕ)
    (sk : List UInt8) (stats : Option SignStats) (T : ThreadState) :
    Traced Query SlhDsaSignResult := do
  let zeroed : Vector UInt8 3680 := Vector.replicate 3680 0
  let T := T.clearFailure
  let (seed, T) := slhDsaDerandomizeUnburned H (some (Vector.replicate 64 0))
    (some message) mlen (some sk) T
  if T.randomSourceFailed then pure ⟨-1, some zeroed, some 0, stats, T⟩
  else do
    let T := T.initRandomSource (seed.map Vector.toList) 64
    let T := T.signStatsBegin E
    let r ← cryptoSignSignature E H sig (message.take mlen) (bytesAt 64 sk) T
    let randomSourceFailed := r.T.randomSourceFailed
    let stats := stats.bind fun _ => r.T.signStats
    let T := r.T.signStatsEnd.restoreOriginalRandom
    if randomSourceFailed then pure ⟨-1, some zeroed, some 0, stats, T⟩
    else if r.code ≠ 0 then pure ⟨r.code, some zeroed, some 0, stats, T⟩
    else pure ⟨r.code, some r.sig, some r.siglen, stats, T⟩

/-- `slh_dsa_sign_with_stats_impl`. -/
def slhDsaSignWithStatsImpl (sig : Option (Vector UInt8 3680)) (siglen : Option ℕ)
    (m : Option (List UInt8)) (mlen : ℕ) (sk : Option (List UInt8))
    (stats : Option SignStats) (T : ThreadState) : Traced Query SlhDsaSignResult :=
  let zeroed : Vector UInt8 3680 := Vector.replicate 3680 0
  match sig, siglen, sk with
  | some sig, some _, some sk =>
      if m.isNone ∧ mlen ≠ 0 then pure ⟨-1, some zeroed, some 0, stats, T⟩
      else do
        let (code, T) ← slhDsaSecretKeyValidateUnburned E H (some sk) slhDsaSecretKeySize T
        if code ≠ 0 then pure ⟨slhDsaSignErrorBadKey, some zeroed, some 0, stats, T⟩
        else slhDsaSignChecked E H sig (m.getD [0]) mlen sk stats T
  | sig, siglen, _ =>
      pure ⟨-1, sig.map fun _ => zeroed, siglen.map fun _ => 0, stats, T⟩

/-- `slh_dsa_sign_with_stats`. -/
def slhDsaSignWithStats (sig : Option (Vector UInt8 3680)) (siglen : Option ℕ)
    (m : Option (List UInt8)) (mlen : ℕ) (sk : Option (List UInt8))
    (stats : Option SignStats) (T : ThreadState) : Traced Query SlhDsaSignResult :=
  slhDsaSignWithStatsImpl E H sig siglen m mlen sk stats T

/-- `slh_dsa_sign`. -/
def slhDsaSign (sig : Option (Vector UInt8 3680)) (siglen : Option ℕ)
    (m : Option (List UInt8)) (mlen : ℕ) (sk : Option (List UInt8)) (T : ThreadState) :
    Traced Query SlhDsaSignResult :=
  slhDsaSignWithStats E H sig siglen m mlen sk none T

/-!
## Key generation
-/

variable (A : Allocator)

/-- `KEYGEN_DERIVE_DOMAIN`, without the terminating zero. -/
def keygenDeriveDomain : List UInt8 :=
  "libbitcoinpqc-qbit/slh-dsa-sha2-128s-bounded30/keygen/v1".toList.map
    fun c => UInt8.ofNat c.toNat

/-- `store_u64_le`. -/
def storeU64Le (value : ℕ) : List UInt8 :=
  (List.range 8).map fun i => UInt8.ofNat (value >>> (8 * i))

/-- The bytes that key generation hashes. -/
def keygenInput (randomData : List UInt8) (randomDataSize : ℕ) : List UInt8 :=
  keygenDeriveDomain ++ [0] ++ storeU64Le randomDataSize ++ randomData.take randomDataSize

/-- `derive_keygen_seed_v1`: the seed, or the error code. -/
def deriveKeygenSeedV1 (randomData : List UInt8) (randomDataSize : ℕ) (heap : Heap) :
    Except Int (Vector UInt8 48) × Heap :=
  let metadataSize := keygenDeriveDomain.length + 1 + 8
  if randomDataSize > sizeMax - metadataSize then (.error (-1), heap)
  else
    let inputSize := (metadataSize + randomDataSize) % 2 ^ 64
    match heap.malloc A inputSize with
    | (none, heap) => (.error slhDsaKeygenErrorOutOfMemory, heap)
    | (some input, heap) =>
        let heap := heap.store (some input) (keygenInput randomData randomDataSize)
        let digest := H.sha512 ((heap.load (some input)).take inputSize)
        let heap := heap.zero (some input) inputSize
        (.ok (slice digest 0 48), heap.free (some input))

/-- The size of the seed-derivation buffer. -/
def keygenInputSize (randomDataSize : ℕ) : ℕ :=
  keygenDeriveDomain.length + 1 + 8 + randomDataSize

theorem length_keygenInput {randomData : List UInt8} {randomDataSize : ℕ}
    (hlen : randomDataSize ≤ randomData.length) :
    (keygenInput randomData randomDataSize).length = keygenInputSize randomDataSize := by
  simp only [keygenInput, keygenInputSize, storeU64Le, List.length_append, List.length_map,
    List.length_range, List.length_take, Nat.min_eq_left hlen, List.length_singleton]

/-- A size that passes the check is not wrapped. -/
theorem keygenInputSize_mod {randomDataSize : ℕ}
    (h : randomDataSize ≤ sizeMax - (keygenDeriveDomain.length + 1 + 8)) :
    keygenInputSize randomDataSize ≤ sizeMax ∧
      (keygenDeriveDomain.length + 1 + 8 + randomDataSize) % 2 ^ 64 =
        keygenInputSize randomDataSize := by
  have hmeta : keygenDeriveDomain.length + 1 + 8 ≤ sizeMax := by decide
  have hle : keygenInputSize randomDataSize ≤ sizeMax := by
    rw [keygenInputSize]
    omega
  exact ⟨hle, Nat.mod_eq_of_lt (Nat.lt_of_le_pred (by decide) hle)⟩

/-- The three exits of `derive_keygen_seed_v1`: the size overflows, the buffer is not
allocated, or it is allocated, filled, hashed, wiped and released. -/
theorem deriveKeygenSeedV1_cases (randomData : List UInt8) (randomDataSize : ℕ)
    (heap : Heap) :
    (sizeMax < keygenInputSize randomDataSize ∧
        deriveKeygenSeedV1 H A randomData randomDataSize heap = (.error (-1), heap)) ∨
      (keygenInputSize randomDataSize ≤ sizeMax ∧
        (heap.malloc A (keygenInputSize randomDataSize)).1 = none ∧
        deriveKeygenSeedV1 H A randomData randomDataSize heap =
          (.error slhDsaKeygenErrorOutOfMemory,
            (heap.malloc A (keygenInputSize randomDataSize)).2)) ∨
      (keygenInputSize randomDataSize ≤ sizeMax ∧
        ∃ input seed, (heap.malloc A (keygenInputSize randomDataSize)).1 = some input ∧
          (randomDataSize ≤ randomData.length →
            seed = slice (H.sha512 (keygenInput randomData randomDataSize)) 0 48) ∧
          deriveKeygenSeedV1 H A randomData randomDataSize heap =
            (.ok seed,
              ((((heap.malloc A (keygenInputSize randomDataSize)).2.store (some input)
                (keygenInput randomData randomDataSize)).zero (some input)
                  (keygenInputSize randomDataSize)).free (some input)))) := by
  rw [deriveKeygenSeedV1]
  dsimp only
  by_cases hsize : randomDataSize > sizeMax - (keygenDeriveDomain.length + 1 + 8)
  · refine Or.inl ⟨?_, if_pos hsize⟩
    rw [keygenInputSize]
    omega
  · obtain ⟨hle, hmod⟩ := keygenInputSize_mod (not_lt.mp hsize)
    rw [if_neg hsize, hmod]
    cases hans : heap.malloc A (keygenInputSize randomDataSize) with
    | mk input heap' =>
      cases input with
      | none => exact Or.inr (Or.inl ⟨hle, rfl, rfl⟩)
      | some input =>
          refine Or.inr (Or.inr ⟨hle, input, _, rfl, ?_, rfl⟩)
          intro hlen
          have hinput := length_keygenInput hlen
          have hload : (heap'.store (some input) (keygenInput randomData
              randomDataSize)).load (some input) = keygenInput randomData randomDataSize := by
            obtain ⟨c, hc, hsize⟩ := Heap.blocks_malloc (A := A) (congrArg Prod.fst hans)
            rw [hans] at hc
            exact Heap.load_store_self hc (hinput.trans hsize.symm)
          rw [hload, ← hinput, List.take_length]

/-- What `slh_dsa_keygen` returns and leaves in its outputs. -/
structure SlhDsaKeygenResult where
  code : Int
  pk : Option (Vector UInt8 32)
  sk : Option (Vector UInt8 64)
  heap : Heap
  T : ThreadState

/-- `slh_dsa_keygen_impl`. -/
def slhDsaKeygenImpl (pk : Option (Vector UInt8 32)) (sk : Option (Vector UInt8 64))
    (randomData : Option (List UInt8)) (randomDataSize : ℕ) (heap : Heap)
    (T : ThreadState) : Traced Query SlhDsaKeygenResult :=
  match pk, sk, randomData with
  | some pk, some sk, some randomData =>
      if randomDataSize < slhDsaKeygenRandomDataMinSize then
        pure ⟨-1, some pk, some sk, heap, T⟩
      else
        match deriveKeygenSeedV1 H A randomData randomDataSize heap with
        | (.error derived, heap) => pure ⟨derived, some pk, some sk, heap, T⟩
        | (.ok seed, heap) => do
            let r ← cryptoSignSeedKeypair E H pk sk seed T
            pure ⟨r.code, some r.pk, some r.sk, heap, r.T⟩
  | pk, sk, _ => pure ⟨-1, pk, sk, heap, T⟩

/-- `slh_dsa_keygen`. -/
def slhDsaKeygen (pk : Option (Vector UInt8 32)) (sk : Option (Vector UInt8 64))
    (randomData : Option (List UInt8)) (randomDataSize : ℕ) (heap : Heap)
    (T : ThreadState) : Traced Query SlhDsaKeygenResult :=
  slhDsaKeygenImpl E H A pk sk randomData randomDataSize heap T

end BitcoinPqc
