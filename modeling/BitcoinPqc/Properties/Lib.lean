import BitcoinPqc.Api.Lib
import BitcoinPqc.Properties.KeyGeneration
import BitcoinPqc.Properties.Ownership
import BitcoinPqc.Properties.Statistics

/-!
# The Rust functions

Between two calls of the Rust functions the library holds no buffer, because each of them
releases what it was given, on every path. So a process looks the same before every call, but
for what the allocator does, and the results depend on the arguments and on the allocator
only. A generated key signs, or the caller learns that a cap was reached or that memory ran
out, and what it signs is accepted.
-/

namespace BitcoinPqc

variable {E : Build} {H : HashFns} {A : Allocator}

/-!
## The buffers of a new key pair
-/

/-- The two buffers of a new key pair hold a key that the validator accepts, and its last
half. -/
def HoldsKeys (H : HashFns) (heap : Heap) (keypair : Option Keypair) : Prop :=
  ∃ (pk sk : ℕ) (key : Vector UInt8 64),
    keypair = some ⟨some pk, some sk, slhDsaPublicKeySize, slhDsaSecretKeySize⟩ ∧
      heap.blocks pk = some (slice key 32 32).toList ∧ heap.blocks sk = some key.toList ∧
        KeyAccepted H key.toList

theorem holdsKeys_of_store {pk sk : ℕ} {heap : Heap} {c d : List UInt8} (hne : pk ≠ sk)
    (hc : heap.blocks pk = some c) (hclen : c.length = slhDsaPublicKeySize)
    (hd : heap.blocks sk = some d) (hdlen : d.length = slhDsaSecretKeySize)
    (seed : Vector UInt8 48) :
    HoldsKeys H
      ((heap.store (some pk) (slice seed 32 16 ++ seedRoot H seed).toList).store (some sk)
        (seed ++ seedRoot H seed).toList)
      (some ⟨some pk, some sk, slhDsaPublicKeySize, slhDsaSecretKeySize⟩) := by
  refine ⟨pk, sk, seed ++ seedRoot H seed, rfl, ?_, ?_, ?_⟩
  · rw [Heap.blocks_store_of_ne hne]
    refine (Heap.blocks_store_self hc ?_).trans ?_
    · rw [hclen]
      exact Vector.length_toList
    · exact congrArg (fun v => some v.toList)
        (slice_append_right seed (seedRoot H seed) 32 16 rfl).symm
  · refine Heap.blocks_store_self (c := d) ?_ ?_
    · rw [Heap.blocks_store_of_ne hne.symm, hd]
    · rw [hdlen]
      exact Vector.length_toList
  · have hseed : slice (seed ++ seedRoot H seed : Vector UInt8 64) 0 48 = seed :=
      slice_append_left seed (seedRoot H seed)
    rw [KeyAccepted, bytesAt_toList, ← seed_append_root_eq_iff, hseed]

section Keygen

variable {ι : Type*} [DecidableEq ι] {own : ι → Option (ℕ × ℕ)} {heap : Heap}

/-- A successful call stores the keys of a seed in its two buffers. -/
theorem exists_store_of_bitcoinPqcKeygenAllocated {pk sk : Option ℕ}
    {keypair : Option Keypair} {randomData : Option (List UInt8)} {randomDataSize : ℕ}
    {T : ThreadState}
    (h : (bitcoinPqcKeygenAllocated E H A keypair randomData randomDataSize pk sk heap
      T).error = .ok) :
    ∃ (a b : ℕ) (seed : Vector UInt8 48), pk = some a ∧ sk = some b ∧
      (bitcoinPqcKeygenAllocated E H A keypair randomData randomDataSize pk sk heap T).heap =
        ((slhDsaKeygen E H A (some (bytesAt 32 (heap.load pk)))
          (some (bytesAt 64 (heap.load sk))) randomData randomDataSize heap T).val.heap.store
            (some a) (slice seed 32 16 ++ seedRoot H seed).toList).store
            (some b) (seed ++ seedRoot H seed).toList ∧
      (bitcoinPqcKeygenAllocated E H A keypair randomData randomDataSize pk sk heap
        T).keypair = some ⟨some a, some b, slhDsaPublicKeySize, slhDsaSecretKeySize⟩ := by
  rw [bitcoinPqcKeygenAllocated] at h ⊢
  by_cases hfail : pk.isNone ∨ sk.isNone
  · rw [if_pos hfail] at h
    cases h
  rw [if_neg hfail] at h ⊢
  dsimp only at h ⊢
  obtain ⟨hpk, hsk⟩ := not_or.mp hfail
  obtain ⟨a, rfl⟩ := Option.ne_none_iff_exists'.mp (mt Option.isNone_iff_eq_none.mpr hpk)
  obtain ⟨b, rfl⟩ := Option.ne_none_iff_exists'.mp (mt Option.isNone_iff_eq_none.mpr hsk)
  by_cases hcode : (slhDsaKeygen E H A (some (bytesAt 32 (heap.load (some a))))
      (some (bytesAt 64 (heap.load (some b)))) randomData randomDataSize heap T).val.code = 0
  · rw [if_neg (not_not_intro hcode)]
    obtain ⟨seed, hsk, hpk, _⟩ := slhDsaKeygen_eq_zero E H A hcode
    rw [hsk, hpk]
    exact ⟨a, b, seed, rfl, rfl, rfl, rfl⟩
  · rw [if_pos hcode] at h
    split at h <;> cases h

theorem holdsKeys_bitcoinPqcKeygenAllocated {x y z : ι} {pk sk : Option ℕ} (hxy : x ≠ y)
    (hzx : z ≠ x) (hzy : z ≠ y) (hz : own z = none)
    (hown : Owned
      (Function.update
        (Function.update own x (pk.map fun a => (a, slhDsaPublicKeySize))) y
        (sk.map fun a => (a, slhDsaSecretKeySize))) heap)
    (keypair : Option Keypair) (randomData : Option (List UInt8)) (randomDataSize : ℕ)
    (T : ThreadState)
    (h : (bitcoinPqcKeygenAllocated E H A keypair randomData randomDataSize pk sk heap
      T).error = .ok) :
    HoldsKeys H
      (bitcoinPqcKeygenAllocated E H A keypair randomData randomDataSize pk sk heap T).heap
      (bitcoinPqcKeygenAllocated E H A keypair randomData randomDataSize pk sk heap
        T).keypair := by
  have hinput : Function.update (Function.update own x
      (pk.map fun a => (a, slhDsaPublicKeySize))) y
      (sk.map fun a => (a, slhDsaSecretKeySize)) z = none := by
    rw [Function.update_of_ne hzy, Function.update_of_ne hzx, hz]
  have hinner := owned_slhDsaKeygen (E := E) (H := H) (A := A) hown hinput
    (some (bytesAt 32 (heap.load pk))) (some (bytesAt 64 (heap.load sk))) randomData
    randomDataSize T
  obtain ⟨a, b, seed, rfl, rfl, hheap, hkeypair⟩ :=
    exists_store_of_bitcoinPqcKeygenAllocated h
  rw [hheap, hkeypair]
  have hownPk : Function.update (Function.update own x
      ((some a).map fun a => (a, slhDsaPublicKeySize))) y
      ((some b).map fun a => (a, slhDsaSecretKeySize)) x =
        some (a, slhDsaPublicKeySize) := by
    rw [Function.update_of_ne hxy, Function.update_self]
    rfl
  have hownSk : Function.update (Function.update own x
      ((some a).map fun a => (a, slhDsaPublicKeySize))) y
      ((some b).map fun a => (a, slhDsaSecretKeySize)) y =
        some (b, slhDsaSecretKeySize) := Function.update_self _ _ _
  have hne : a ≠ b := by
    rintro rfl
    exact hxy (hinner.unshared x y a _ _ hownPk hownSk)
  obtain ⟨c, hc, hclen⟩ := hinner.live x a _ hownPk
  obtain ⟨d, hd, hdlen⟩ := hinner.live y b _ hownSk
  exact holdsKeys_of_store hne hc hclen hd hdlen seed

theorem holdsKeys_bitcoinPqcKeygen {x y z : ι} (hxy : x ≠ y) (hzx : z ≠ x) (hzy : z ≠ y)
    (hx : own x = none) (hy : own y = none) (hz : own z = none) (hown : Owned own heap)
    (randomData : List UInt8) {randomDataSize : ℕ}
    (hmin : slhDsaKeygenRandomDataMinSize ≤ randomDataSize) (T : ThreadState)
    (h : (bitcoinPqcKeygen E H A (some Keypair.empty) (some randomData) randomDataSize heap
      T).error = .ok) :
    HoldsKeys H
      (bitcoinPqcKeygen E H A (some Keypair.empty) (some randomData) randomDataSize heap
        T).heap
      (bitcoinPqcKeygen E H A (some Keypair.empty) (some randomData) randomDataSize heap
        T).keypair := by
  have hpk := hown.malloc A slhDsaPublicKeySize hx
  have hsk := hpk.malloc A slhDsaSecretKeySize (x := y)
    ((Function.update_of_ne hxy.symm _ _).trans hy)
  rw [bitcoinPqcKeygen, if_neg (by simp), if_neg (by decide), if_neg (not_lt.mpr hmin)]
    at h ⊢
  exact holdsKeys_bitcoinPqcKeygenAllocated hxy hzx hzy hz hsk _ _ _ T h

end Keygen

namespace Rust

/-- The library holds no buffer, and every buffer it released was live and full of zeros. -/
abbrev NoBuffers (heap : Heap) : Prop := Owned (fun _ : Owner => none) heap

variable {heap : Heap} {T : ThreadState}

/-!
## Key generation
-/

theorem noBuffers_bitcoinPqcKeypairFree {pk sk : ℕ}
    (h : Owned (Function.update
      (Function.update (fun _ : Owner => none) (.publicKey 0) (some (pk, slhDsaPublicKeySize)))
      (.secretKey 0) (some (sk, slhDsaSecretKeySize))) heap) :
    NoBuffers (bitcoinPqcKeypairFree
      (some ⟨some pk, some sk, slhDsaPublicKeySize, slhDsaSecretKeySize⟩) heap).2 := by
  have hne : Owner.publicKey 0 ≠ Owner.secretKey 0 := Owner.noConfusion
  have hfreed := owned_bitcoinPqcKeypairFree
    (k := ⟨some pk, some sk, slhDsaPublicKeySize, slhDsaSecretKeySize⟩) h hne
    (by rw [Function.update_of_ne hne, Function.update_self]; rfl) (Function.update_self _ _ _)
  rw [Function.update_comm hne.symm, Function.update_idem, Function.update_idem,
    Owned.update_none rfl, Owned.update_none rfl] at hfreed
  exact hfreed

theorem noBuffers_bitcoinPqcSignatureFree {sig : ℕ}
    (h : Owned (Function.update (fun _ : Owner => none) (.signature 0)
      (some (sig, slhDsaSignatureSize))) heap) :
    NoBuffers (bitcoinPqcSignatureFree (some ⟨some sig, slhDsaSignatureSize⟩) heap).2 := by
  have hfreed := h.zero_free (x := .signature 0) (p := some sig) (n := slhDsaSignatureSize)
    (Function.update_self _ _ _)
  rw [Function.update_idem, Owned.update_none rfl] at hfreed
  exact hfreed

theorem noBuffers_generateKeypair (hown : NoBuffers heap) (randomData : List UInt8) :
    NoBuffers (generateKeypair E H A randomData heap T).heap ∧
      (generateKeypair E H A randomData heap T).T = T := by
  rw [generateKeypair]
  split
  · exact ⟨hown, rfl⟩
  have hT : (bitcoinPqcKeygen E H A (some Keypair.empty) (some randomData)
      randomData.length heap T).T = T := by
    rw [bitcoinPqcKeygen_fresh]
  have hcases := owned_bitcoinPqcKeygen (E := E) (H := H) (A := A) hown
    (x := .publicKey 0) (y := .secretKey 0) (z := .input) Owner.noConfusion
    Owner.noConfusion Owner.noConfusion rfl (fun _ : some Keypair.empty = _ => rfl)
    (fun _ => rfl) (some randomData) randomData.length T
  generalize bitcoinPqcKeygen E H A (some Keypair.empty) (some randomData)
    randomData.length heap T = r at hT hcases
  rw [generateKeypairCalled]
  rcases hcases with ⟨herror, hkeypair, hheap⟩ | ⟨herror, pk, sk, hkeypair, hheap⟩
  · rw [if_pos herror, hkeypair]
    exact ⟨hheap, hT⟩
  · rw [if_neg (not_not_intro herror), hkeypair]
    exact ⟨noBuffers_bitcoinPqcKeypairFree hheap, hT⟩

/-- A key pair that `generate_keypair` returns: the validator accepts the secret key, and
the public key is its last half. -/
structure KeyPair.Generated (H : HashFns) (keypair : KeyPair) : Prop where
  size : keypair.secretKey.bytes.length = slhDsaSecretKeySize
  accepted : KeyAccepted H keypair.secretKey.bytes
  publicKey : keypair.publicKey.bytes = keypair.secretKey.bytes.drop 32

theorem KeyPair.Generated.publicKey_size {keypair : KeyPair} (h : keypair.Generated H) :
    keypair.publicKey.bytes.length = slhDsaPublicKeySize := by
  rw [h.publicKey, List.length_drop, h.size]
  rfl

theorem generated_of_key {key : Vector UInt8 64} (h : KeyAccepted H key.toList) :
    KeyPair.Generated H ⟨⟨(slice key 32 32).toList⟩, ⟨key.toList⟩⟩ where
  size := Vector.length_toList
  accepted := h
  publicKey := by
    rw [toList_slice key 32 32 (by decide), List.take_of_length_le]
    rw [List.length_drop, Vector.length_toList]

/-- The length of a slice leaves room for what key generation puts around it. -/
theorem keygenInputSize_le {n : ℕ} (h : n < 2 ^ 63) : keygenInputSize n ≤ sizeMax := by
  have hroom : 2 ^ 63 ≤ sizeMax - (keygenDeriveDomain.length + 1 + 8) := by decide
  exact (keygenInputSize_mod (h.le.trans hroom)).1

/-- What `generate_keypair` returns, and when. -/
inductive KeygenOutcome (H : HashFns) (A : Allocator) (randomData : List UInt8)
    (heap : Heap) : Except PqcError KeyPair → Prop
  | entropy (h : randomData.length < 128) :
      KeygenOutcome H A randomData heap (.error .insufficientData)
  | memory (h : 128 ≤ randomData.length)
      (hmemory : KeyBufferFails A heap ∨ SeedBufferFails A randomData.length heap) :
      KeygenOutcome H A randomData heap (.error (.other (-6)))
  | generated (h : 128 ≤ randomData.length)
      (hmemory : ¬ (KeyBufferFails A heap ∨ SeedBufferFails A randomData.length heap))
      (keypair : KeyPair) (hgenerated : keypair.Generated H) :
      KeygenOutcome H A randomData heap (.ok keypair)

theorem keygenOutcome_generateKeypair (hown : NoBuffers heap) {randomData : List UInt8}
    (hfits : keygenInputSize randomData.length ≤ sizeMax) :
    KeygenOutcome H A randomData heap (generateKeypair E H A randomData heap T).value := by
  rw [generateKeypair]
  by_cases hlen : randomData.length < 128
  · rw [if_pos hlen]
    exact .entropy hlen
  rw [if_neg hlen]
  have hmin : slhDsaKeygenRandomDataMinSize ≤ randomData.length := Nat.le_of_not_lt hlen
  have hfailed (herror : (bitcoinPqcKeygen E H A (some Keypair.empty) (some randomData)
      randomData.length heap T).error = .outOfMemory) :
      (generateKeypairCalled (bitcoinPqcKeygen E H A (some Keypair.empty) (some randomData)
        randomData.length heap T)).value = .error (.other (-6)) := by
    rw [generateKeypairCalled, if_pos (by rw [herror]; decide), herror]
    rfl
  by_cases hkeys : KeyBufferFails A heap
  · rw [hfailed (bitcoinPqcKeygen_of_keyBufferFails E H hmin randomData T hkeys).1]
    exact .memory hmin (Or.inl hkeys)
  obtain ⟨hfail, hok⟩ := bitcoinPqcKeygen_of_fits E H hmin randomData T hkeys hfits
  by_cases hseed : SeedBufferFails A randomData.length heap
  · rw [hfailed (hfail hseed).1]
    exact .memory hmin (Or.inr hseed)
  have herror := hok hseed
  obtain ⟨pk, sk, key, hkeypair, hpk, hsk, haccepted⟩ := holdsKeys_bitcoinPqcKeygen
    (x := Owner.publicKey 0) (y := .secretKey 0) (z := .input) Owner.noConfusion
    Owner.noConfusion Owner.noConfusion rfl rfl rfl hown randomData hmin T herror
  have hvalue : (generateKeypairCalled (bitcoinPqcKeygen E H A (some Keypair.empty)
      (some randomData) randomData.length heap T)).value =
        .ok ⟨⟨(slice key 32 32).toList⟩, ⟨key.toList⟩⟩ := by
    rw [generateKeypairCalled, if_neg (not_not_intro herror), hkeypair]
    simp only [toVec, Heap.load, Option.getD_some, Option.bind_some, hpk, hsk]
    rw [List.take_of_length_le Vector.length_toList.le,
      List.take_of_length_le Vector.length_toList.le]
  rw [hvalue]
  exact .generated hmin (not_or.mpr ⟨hkeys, hseed⟩) _ (generated_of_key haccepted)

/-!
## Signing
-/

variable {secretKey : SecretKey} {message : List UInt8} {stats : Option SignStats}

/-- The two functions that sign are one function. -/
theorem signInner_eq (hsize : secretKey.bytes.length = slhDsaSecretKeySize) :
    signInner E H A secretKey message stats heap T =
      signInnerCalled (bitcoinPqcSignImpl E H A (some secretKey.bytes)
        secretKey.bytes.length (some message) message.length (some .empty) stats heap T) := by
  rw [signInner, if_neg (not_not_intro hsize)]
  cases stats with
  | none => rfl
  | some stats => rfl

theorem noBuffers_signInner (hown : NoBuffers heap) (hT : T.Clean) (secretKey : SecretKey)
    (message : List UInt8) (stats : Option SignStats) :
    NoBuffers (signInner E H A secretKey message stats heap T).heap ∧
      (signInner E H A secretKey message stats heap T).T.Clean := by
  by_cases hsize : secretKey.bytes.length = slhDsaSecretKeySize
  swap
  · rw [signInner, if_pos hsize]
    exact ⟨hown, hT⟩
  rw [signInner_eq hsize]
  have hclean : (bitcoinPqcSignImpl E H A (some secretKey.bytes) secretKey.bytes.length
      (some message) message.length (some .empty) stats heap T).T.Clean := by
    obtain ⟨T', hT', heq⟩ := bitcoinPqcSignImpl_fresh (E := E) (H := H) (A := A)
      (some secretKey.bytes) secretKey.bytes.length (some message) message.length
      (some .empty) stats heap hT
    rw [heq]
    exact hT'
  have hcases := owned_bitcoinPqcSignImpl (E := E) (H := H) (A := A) hown
    (x := .signature 0) (fun _ : some Signature.empty = _ => rfl) (some secretKey.bytes)
    secretKey.bytes.length (some message) message.length stats T
  generalize bitcoinPqcSignImpl E H A (some secretKey.bytes) secretKey.bytes.length
    (some message) message.length (some .empty) stats heap T = r at hclean hcases
  rw [signInnerCalled]
  rcases hcases with ⟨herror, hsignature, hheap⟩ | ⟨herror, sig, hsignature, hheap⟩
  · dsimp only
    rw [if_pos herror, hsignature]
    exact ⟨hheap, hclean⟩
  · dsimp only
    rw [if_neg (not_not_intro herror), hsignature]
    exact ⟨noBuffers_bitcoinPqcSignatureFree hheap, hclean⟩

/-- What `sign` returns, and when. -/
inductive SignOutcome (E : Build) (H : HashFns) (A : Allocator) (secretKey : SecretKey)
    (message : List UInt8) (heap : Heap) : Except PqcError Signature → Prop
  | keySize (h : secretKey.bytes.length ≠ slhDsaSecretKeySize) :
      SignOutcome E H A secretKey message heap (.error .badKey)
  | memory (h : secretKey.bytes.length = slhDsaSecretKeySize)
      (hmalloc : (heap.malloc A slhDsaSignatureSize).1 = none) :
      SignOutcome E H A secretKey message heap (.error (.other (-6)))
  | key (h : secretKey.bytes.length = slhDsaSecretKeySize)
      (hmalloc : (heap.malloc A slhDsaSignatureSize).1 ≠ none)
      (hkey : ¬ KeyAccepted H secretKey.bytes) :
      SignOutcome E H A secretKey message heap (.error .badKey)
  | limit (h : secretKey.bytes.length = slhDsaSecretKeySize)
      (hmalloc : (heap.malloc A slhDsaSignatureSize).1 ≠ none)
      (hkey : KeyAccepted H secretKey.bytes)
      (hlimit : LimitReached E H message message.length secretKey.bytes) :
      SignOutcome E H A secretKey message heap (.error .signingLimitExceeded)
  | signed (h : secretKey.bytes.length = slhDsaSecretKeySize)
      (hmalloc : (heap.malloc A slhDsaSignatureSize).1 ≠ none)
      (hkey : KeyAccepted H secretKey.bytes)
      (hlimit : ¬ LimitReached E H message message.length secretKey.bytes)
      (sig : Signature) (hlen : sig.bytes.length = slhDsaSignatureSize)
      (hverify : ∀ (E' : Build) (T' : ThreadState), T'.Clean →
        (bitcoinPqcVerify E' H (some (secretKey.bytes.drop 32)) slhDsaPublicKeySize
          (some message) message.length (some sig.bytes) slhDsaSignatureSize T').1 = .ok) :
      SignOutcome E H A secretKey message heap (.ok sig)

theorem signOutcome_signInner (E : Build) (H : HashFns) (A : Allocator)
    (secretKey : SecretKey) (message : List UInt8) (stats : Option SignStats) (heap : Heap)
    (T : ThreadState) :
    SignOutcome E H A secretKey message heap
      (((signInner E H A secretKey message stats heap T).value.map Prod.fst).mapError
        SignWithStatsError.error) := by
  by_cases hsize : secretKey.bytes.length = slhDsaSecretKeySize
  swap
  · rw [signInner, if_pos hsize]
    exact .keySize hsize
  rw [signInner_eq hsize, hsize]
  have hcontract := signContract_bitcoinPqcSignImpl E H A secretKey.bytes
    slhDsaSecretKeySize (show ¬ ((some message).isNone ∧ message.length ≠ 0) by simp) stats
    heap T
  have hvalid := bitcoinPqcSecretKeyValidate_eq E H secretKey.bytes T
  generalize bitcoinPqcSignImpl E H A (some secretKey.bytes) slhDsaSecretKeySize
    (some message) message.length (some .empty) stats heap T = r at hcontract
  have hfailed (error : BitcoinPqcError) (herror : r.error = error) (hne : error ≠ .ok) :
      ((signInnerCalled r).value.map Prod.fst).mapError SignWithStatsError.error =
        .error (pqcErrorFromCode error.code) := by
    simp only [signInnerCalled]
    rw [if_pos (by rw [herror]; exact hne), herror]
    rfl
  by_cases hmalloc : (heap.malloc A slhDsaSignatureSize).1 = none
  · rw [hfailed _ (hcontract.memory rfl hmalloc) (by decide)]
    exact .memory hsize hmalloc
  by_cases hkey : KeyAccepted H secretKey.bytes
  swap
  · rw [hfailed _ ((hcontract.key rfl hmalloc T).mpr (hvalid.2.mpr hkey)) (by decide)]
    exact .key hsize hmalloc hkey
  obtain ⟨hor, hiff⟩ := hcontract.limit rfl hmalloc T (hvalid.1.mpr hkey)
  by_cases hlimit : LimitReached E H message message.length secretKey.bytes
  · rw [hfailed _ (hiff.mpr hlimit) (by decide)]
    exact .limit hsize hmalloc hkey hlimit
  have herror := hor.resolve_right fun h => hlimit (hiff.mp h)
  obtain ⟨sig, bytes, hsignature, hblock, hlen, hverify⟩ := hcontract.signed herror
  have hvalue : ((signInnerCalled r).value.map Prod.fst).mapError
      SignWithStatsError.error = .ok ⟨bytes⟩ := by
    simp only [signInnerCalled]
    rw [if_neg (not_not_intro herror), hsignature]
    simp only [toVec, Heap.load, Option.getD_some, Option.bind_some, hblock]
    rw [List.take_of_length_le hlen.le]
    rfl
  rw [hvalue]
  exact .signed hsize hmalloc hkey hlimit _ hlen hverify

/-!
## Verification
-/

theorem clean_verify (hT : T.Clean) (publicKey : PublicKey) (message : List UInt8)
    (signature : Signature) : (verify E H publicKey message signature T).2.Clean := by
  rw [verify]
  split
  · exact hT
  split
  · exact hT
  · rw [bitcoinPqcVerify_fresh _ _ _ _ _ _ hT]
    exact hT

/-- The C function is asked with the right sizes only, and its one error is mapped. -/
theorem verify_value (publicKey : PublicKey) (message : List UInt8) (signature : Signature)
    (hT : T.Clean) :
    (verify E H publicKey message signature T).1 =
      if publicKey.bytes.length ≠ slhDsaPublicKeySize then .error .badKey
      else if signature.bytes.length = slhDsaSignatureSize ∧
          (bitcoinPqcVerify E H (some publicKey.bytes) slhDsaPublicKeySize (some message)
            message.length (some signature.bytes) slhDsaSignatureSize .fresh).1 = .ok then
        .ok ()
      else .error .badSignature := by
  rw [verify]
  by_cases hpk : publicKey.bytes.length = slhDsaPublicKeySize
  swap
  · rw [if_pos hpk, if_pos hpk]
  rw [if_neg (not_not_intro hpk), if_neg (not_not_intro hpk)]
  by_cases hsig : signature.bytes.length = slhDsaSignatureSize
  swap
  · rw [if_pos hsig, if_neg fun h => hsig h.1]
  rw [if_neg (not_not_intro hsig), hpk, hsig, bitcoinPqcVerify_fresh _ _ _ _ _ _ hT]
  have hcases : (bitcoinPqcVerify E H (some publicKey.bytes) slhDsaPublicKeySize
      (some message) message.length (some signature.bytes) slhDsaSignatureSize .fresh).1 =
        .ok ∨
      (bitcoinPqcVerify E H (some publicKey.bytes) slhDsaPublicKeySize
        (some message) message.length (some signature.bytes) slhDsaSignatureSize .fresh).1 =
          .badSignature := by
    rw [bitcoinPqcVerify, if_neg (by simp), if_neg (by simp), if_neg (not_not_intro rfl),
      if_neg (not_not_intro rfl)]
    dsimp only
    split
    · exact Or.inr rfl
    · exact Or.inl rfl
  rcases hcases with h | h
  · rw [h, if_pos ⟨rfl, rfl⟩]
    rfl
  · rw [h, if_neg (by simp)]
    rfl

theorem verify_eq_ok {publicKey : PublicKey} {signature : Signature} (hT : T.Clean)
    (hpk : publicKey.bytes.length = slhDsaPublicKeySize)
    (hsig : signature.bytes.length = slhDsaSignatureSize)
    (h : (bitcoinPqcVerify E H (some publicKey.bytes) slhDsaPublicKeySize (some message)
      message.length (some signature.bytes) slhDsaSignatureSize .fresh).1 = .ok) :
    (verify E H publicKey message signature T).1 = .ok () := by
  rw [verify_value _ _ _ hT, if_neg (not_not_intro hpk), if_pos ⟨hsig, h⟩]

/-!
## Processes
-/

/-- The library holds no buffer and no thread has a random source or a stats object
installed. -/
structure Process.Quiet (s : Process) : Prop where
  noBuffers : NoBuffers s.heap
  clean : ∀ t, (s.threads t).Clean

theorem Process.quiet_start : Process.start.Quiet where
  noBuffers := owned_empty
  clean _ := ThreadState.clean_fresh

theorem Process.Quiet.update {s : Process} (hs : s.Quiet) {heap : Heap} {T : ThreadState}
    (hheap : NoBuffers heap) (hT : T.Clean) (t : ℕ) :
    Process.Quiet ⟨heap, Function.update s.threads t T⟩ where
  noBuffers := hheap
  clean := (Function.forall_update_iff s.threads fun _ T => T.Clean).mpr
    ⟨hT, fun u _ => hs.clean u⟩

/-- Every call leaves the process as quiet as it was. -/
theorem Process.Quiet.step {s : Process} (hs : s.Quiet) (t : ℕ) (c : Call) :
    (s.step E H A t c).Quiet := by
  cases c with
  | generateKeypair randomData =>
      obtain ⟨hheap, hT⟩ := noBuffers_generateKeypair (E := E) (H := H) (A := A)
        (T := s.threads t) hs.noBuffers randomData
      exact hs.update hheap (hT.symm ▸ hs.clean t) t
  | sign secretKey message =>
      obtain ⟨hheap, hT⟩ := noBuffers_signInner (E := E) (H := H) (A := A)
        hs.noBuffers (hs.clean t) secretKey message none
      exact hs.update hheap hT t
  | signWithStats secretKey message =>
      obtain ⟨hheap, hT⟩ := noBuffers_signInner (E := E) (H := H) (A := A)
        hs.noBuffers (hs.clean t) secretKey message (some zeroStats)
      exact hs.update hheap hT t
  | verify publicKey message signature =>
      exact hs.update hs.noBuffers (clean_verify (hs.clean t) publicKey message signature) t

theorem Process.Quiet.run (calls : List (ℕ × Call)) {s : Process} (hs : s.Quiet) :
    (s.run E H A calls).Quiet := by
  induction calls generalizing s with
  | nil => exact hs
  | cons c calls ih => exact ih (hs.step c.1 c.2)

/-- After every sequence of calls by any threads the library holds no memory, whatever the
allocator refused. Every buffer was released once, while it was live, and was full of zeros
then. No thread has a random source or a stats object installed. -/
theorem Process.run_holds_nothing (E : Build) (H : HashFns) (A : Allocator)
    (calls : List (ℕ × Call)) :
    (∀ a, (Process.start.run E H A calls).heap.blocks a = none) ∧
      (∀ c ∈ (Process.start.run E H A calls).heap.released,
        ∃ n, c = some (List.replicate n 0)) ∧
      ∀ t, ((Process.start.run E H A calls).threads t).Clean := by
  have hquiet := Process.quiet_start.run (E := E) (H := H) (A := A) calls
  refine ⟨fun a => ?_, hquiet.noBuffers.wiped, hquiet.clean⟩
  by_contra hlive
  obtain ⟨x, n, hx⟩ := hquiet.noBuffers.listed a hlive
  cases hx

/-- The errors of the Rust functions after any sequence of calls by any threads. Key
generation fails for too little entropy and for want of memory only. Signing fails for a key
that is not one, for want of memory and at a cap. Verification blames the public key for its
length only. -/
theorem Process.run_errors (E : Build) (H : HashFns) (A : Allocator)
    (calls : List (ℕ × Call)) (t : ℕ) :
    let s := Process.start.run E H A calls
    (∀ randomData : List UInt8, randomData.length < 2 ^ 63 →
      KeygenOutcome H A randomData s.heap
        (generateKeypair E H A randomData s.heap (s.threads t)).value) ∧
      (∀ secretKey message,
        SignOutcome E H A secretKey message s.heap
          (sign E H A secretKey message s.heap (s.threads t)).value) ∧
      ∀ publicKey message signature,
        (verify E H publicKey message signature (s.threads t)).1 =
          if publicKey.bytes.length ≠ slhDsaPublicKeySize then .error .badKey
          else if signature.bytes.length = slhDsaSignatureSize ∧
              (bitcoinPqcVerify E H (some publicKey.bytes) slhDsaPublicKeySize
                (some message) message.length (some signature.bytes) slhDsaSignatureSize
                .fresh).1 = .ok then .ok ()
          else .error .badSignature := by
  intro s
  have hquiet : s.Quiet := Process.quiet_start.run calls
  refine ⟨?_, ?_, ?_⟩
  · intro randomData hlen
    exact keygenOutcome_generateKeypair hquiet.noBuffers (keygenInputSize_le hlen)
  · intro secretKey message
    exact signOutcome_signInner E H A secretKey message none s.heap (s.threads t)
  · intro publicKey message signature
    exact verify_value publicKey message signature (hquiet.clean t)

/-- A generated key signs every message, unless a cap is reached or memory runs out, and
its public key accepts the signature: in whichever states of the process and on whichever
threads the three calls are made. The keys and the signature can be read back from their
bytes. -/
theorem verify_sign_generateKeypair (E : Build) (H : HashFns) (A : Allocator)
    (calls₁ calls₂ calls₃ : List (ℕ × Call)) (t₁ t₂ t₃ : ℕ) (randomData : List UInt8)
    (hlen : randomData.length < 2 ^ 63) (keypair : KeyPair) (message : List UInt8) :
    let s₁ := Process.start.run E H A calls₁
    let s₂ := Process.start.run E H A calls₂
    let s₃ := Process.start.run E H A calls₃
    let signed := (sign E H A keypair.secretKey message s₂.heap (s₂.threads t₂)).value
    (generateKeypair E H A randomData s₁.heap (s₁.threads t₁)).value = .ok keypair →
      PublicKey.tryFromSlice keypair.publicKey.bytes = .ok keypair.publicKey ∧
        SecretKey.tryFromSlice keypair.secretKey.bytes = .ok keypair.secretKey ∧
        (signed = .error .signingLimitExceeded ∨ signed = .error (.other (-6)) ∨
          ∃ signature, signed = .ok signature) ∧
        ∀ signature, signed = .ok signature →
          Signature.tryFromSlice signature.bytes = .ok signature ∧
            (verify E H keypair.publicKey message signature (s₃.threads t₃)).1 = .ok () := by
  intro s₁ s₂ s₃ signed hgenerated
  have hquiet (calls : List (ℕ × Call)) :=
    Process.quiet_start.run (E := E) (H := H) (A := A) calls
  have hkeys : keypair.Generated H := by
    have houtcome := keygenOutcome_generateKeypair (E := E) (H := H) (A := A)
      (T := s₁.threads t₁) (hquiet calls₁).noBuffers (keygenInputSize_le hlen)
    rw [hgenerated] at houtcome
    cases houtcome with
    | generated _ _ _ h => exact h
  have houtcome : SignOutcome E H A keypair.secretKey message s₂.heap signed :=
    signOutcome_signInner E H A _ message none s₂.heap (s₂.threads t₂)
  refine ⟨if_neg (not_not_intro hkeys.publicKey_size), if_neg (not_not_intro hkeys.size), ?_⟩
  clear hgenerated
  clear_value signed
  cases houtcome with
  | keySize h => exact absurd hkeys.size h
  | memory h hmalloc => exact ⟨Or.inr (Or.inl rfl), nofun⟩
  | key h hmalloc hkey => exact absurd hkeys.accepted hkey
  | limit h hmalloc hkey hlimit => exact ⟨Or.inl rfl, nofun⟩
  | signed h hmalloc hkey hlimit sig hlen hverify =>
      refine ⟨Or.inr (Or.inr ⟨sig, rfl⟩), ?_⟩
      intro signature hsignature
      cases hsignature
      have hok := hverify E .fresh ThreadState.clean_fresh
      rw [← hkeys.publicKey] at hok
      exact ⟨if_neg (not_not_intro hlen),
        verify_eq_ok ((hquiet calls₃).clean t₃) hkeys.publicKey_size hlen hok⟩

/-- Key generation from 128 zeros with the hash functions that ignore their input. -/
theorem verify_sign_generateKeypair_constantHash :
    ∃ keypair, (generateKeypair smallestCaps constantHash countingAllocator
        (List.replicate 128 0) Heap.empty .fresh).value = .ok keypair ∧
      ∀ signature, (sign smallestCaps constantHash countingAllocator keypair.secretKey [1]
          Heap.empty .fresh).value = .ok signature →
        Signature.tryFromSlice signature.bytes = .ok signature ∧
          (verify smallestCaps constantHash keypair.publicKey [1] signature .fresh).1 =
            .ok () := by
  have hlen : (List.replicate 128 (0 : UInt8)).length < 2 ^ 63 := by simp
  have hmemory : ¬ (KeyBufferFails countingAllocator Heap.empty ∨
      SeedBufferFails countingAllocator (List.replicate 128 (0 : UInt8)).length
        Heap.empty) := by
    rw [List.length_replicate]
    rintro ((h | h) | (h | h))
    all_goals
      revert h
      decide
  have houtcome := keygenOutcome_generateKeypair (E := smallestCaps) (H := constantHash)
    (A := countingAllocator) (T := .fresh) owned_empty (keygenInputSize_le hlen)
  cases hvalue : (generateKeypair smallestCaps constantHash countingAllocator
      (List.replicate 128 0) Heap.empty .fresh).value with
  | error error =>
      rw [hvalue] at houtcome
      cases houtcome with
      | entropy h =>
          rw [List.length_replicate] at h
          exact absurd h (Nat.lt_irrefl 128)
      | memory _ h => exact absurd h hmemory
  | ok keypair =>
      exact ⟨keypair, rfl, (verify_sign_generateKeypair smallestCaps constantHash
        countingAllocator [] [] [] 0 0 0 _ hlen keypair [1] hvalue).2.2.2⟩

/-!
## Statistics
-/

/-- A stats object of a run that signed. -/
structure SignedStats (E : Build) (s : SignStats) : Prop where
  capExceeded : s.capExceeded = 0
  layerCount : s.wotscLayerCount = 5
  forsc : 1 ≤ s.forscAttempts ∧ s.forscAttempts ≤ E.forscMaxGrindAttempts
  forscMax : s.forscMaxAttempts = E.forscMaxGrindAttempts
  wotsc : ∀ a ∈ s.wotscAttempts.toList, 1 ≤ a ∧ a ≤ E.wotscMaxCounter + 1
  wotscMax : s.wotscMaxAttempts = E.wotscMaxCounter + 1
  observed : s.wotscMaxObservedAttempts = s.wotscAttempts.toList.foldl max 0

theorem signedStats_of_statsTrue {m : List UInt8} {sk : Vector UInt8 64} {s : SignStats}
    (h : StatsTrue E H m sk T 0 s) : SignedStats E s := by
  obtain ⟨hone, hle, hcount, hcap, hattempts⟩ := h.signed rfl
  refine ⟨hcap, hcount, ⟨hone, hle⟩, h.forscMax, ?_, h.wotscMax, ?_⟩
  · intro a ha
    obtain ⟨l, hl, rfl⟩ := List.mem_iff_getElem.mp ha
    rw [Vector.length_toList] at hl
    obtain ⟨c, hc, hattempt⟩ := hattempts l hl
    rw [Vector.getElem_toList, hattempt]
    exact ⟨Nat.succ_pos c, Nat.succ_le_succ ((firstUpTo_eq_some_iff _ _ _).mp hc).2.1⟩
  · rw [h.observed, hcount, List.take_of_length_le Vector.length_toList.le]

theorem stats_slhDsaSignWithStats (sig : Vector UInt8 3680) (siglen : ℕ)
    (message : List UInt8) (mlen : ℕ) (sk : List UInt8) {z : SignStats}
    (hz : z.capExceeded = 0) (T : ThreadState) :
    let r := (slhDsaSignWithStats E H (some sig) (some siglen) (some message) mlen (some sk)
      (some z) T).val
    ∃ s, r.stats = some s ∧ (r.code = 0 → SignedStats E s) ∧
      (r.code = signLimitExceeded ↔ s.capExceeded ≠ 0) := by
  intro r
  have hm : ¬ ((some message).isNone ∧ mlen ≠ 0) := by simp
  by_cases hkey : KeyAccepted H sk
  · obtain ⟨hcode, hstats⟩ := slhDsaSignWithStats_of_accepted E sig siglen hm hkey (some z) T
    have hcase := statsCase_cryptoSignSignature (E := E) (H := H)
      (((some message).getD [0]).take mlen) (bytesAt 64 sk)
      (T := signThread E H ((some message).getD [0]) mlen sk) rfl
      (show (64 : ℕ) ≠ 0 by decide) (signStats_signStatsBegin E _) sig
    obtain ⟨s, hs⟩ := hcase.exists_stats
    rw [← hcode, hs] at hcase
    rw [Option.bind_some, hs] at hstats
    have htrue := statsTrue_of_statsCase hcase
    refine ⟨s, hstats, fun hzero => signedStats_of_statsTrue (hzero ▸ htrue), ?_⟩
    rcases htrue.outcome with hzero | hlimit
    · have hcap := (htrue.signed hzero).2.2.2.1
      exact ⟨fun h => absurd (hzero.symm.trans h) (by decide), fun h => absurd hcap h⟩
    · refine ⟨fun _ => ?_, fun _ => hlimit⟩
      rcases htrue.limit hlimit with ⟨hcap, _⟩ | ⟨hcap, _⟩
      · rw [hcap]
        decide
      · rw [hcap]
        decide
  · have hcase := signCase_slhDsaSignWithStats E H sig siglen hm sk (some z) T
    change SignCase E H _ mlen sk (some z) r at hcase
    clear_value r
    cases hcase with
    | badKey _ T' =>
        have hzero : slhDsaSignErrorBadKey ≠ 0 := by decide
        have hlimit : slhDsaSignErrorBadKey ≠ signLimitExceeded := by decide
        exact ⟨z, rfl, fun h => absurd h hzero, fun h => absurd h hlimit,
          fun h => absurd hz h⟩
    | limit haccepted hlimit stats' T' => exact absurd haccepted hkey
    | signed haccepted hlimit r₀ T' hT' hsigned => exact absurd haccepted hkey

theorem stats_bitcoinPqcSignImpl (secretKey message : List UInt8) {z : SignStats}
    (hz : z.capExceeded = 0) (heap : Heap) (T : ThreadState) :
    let r := bitcoinPqcSignImpl E H A (some secretKey) slhDsaSecretKeySize (some message)
      message.length (some .empty) (some z) heap T
    ∃ s, r.stats = some s ∧ (r.error = .ok → SignedStats E s) ∧
      (r.error = .signingLimit ↔ s.capExceeded ≠ 0) := by
  intro r
  simp only [r]
  rw [bitcoinPqcSignImpl, if_neg (by simp), if_neg (by simp),
    if_neg (not_not_intro (show (some Signature.empty).all signatureOutputIsEmpty = true from
      (signatureOutputIsEmpty_iff _).mpr rfl)), if_neg (not_not_intro rfl)]
  dsimp only
  rw [bitcoinPqcSignAllocated]
  split
  · exact ⟨z, rfl, fun h => (by cases h), fun h => (by cases h), fun h => absurd hz h⟩
  · obtain ⟨s, hs, hsigned, hlimit⟩ := stats_slhDsaSignWithStats (E := E) (H := H)
      (bytesAt 3680 ((heap.malloc A slhDsaSignatureSize).2.load
        (heap.malloc A slhDsaSignatureSize).1)) 0 ((some message).getD emptyMessage)
      message.length ((some secretKey).getD []) hz T
    generalize (slhDsaSignWithStats E H (some (bytesAt 3680 _)) (some 0)
      (some ((some message).getD emptyMessage)) message.length
      (some ((some secretKey).getD [])) (some z) T).val = r₀ at hs hsigned hlimit ⊢
    refine ⟨s, ?_⟩
    dsimp only
    split
    · split
      · next hcode => exact ⟨hs, fun h => (by cases h), fun _ => hlimit.mp hcode, fun _ => rfl⟩
      · next hcode =>
          have hno : ¬ s.capExceeded ≠ 0 := fun h => hcode (hlimit.mpr h)
          split
          · exact ⟨hs, fun h => (by cases h), fun h => (by cases h), fun h => absurd h hno⟩
          · exact ⟨hs, fun h => (by cases h), fun h => (by cases h), fun h => absurd h hno⟩
    · next hok =>
        have hzero : r₀.code = 0 := Classical.not_not.mp (not_or.mp hok).1
        have hno : ¬ s.capExceeded ≠ 0 := fun h =>
          absurd (hzero.symm.trans (hlimit.mpr h)) (by decide)
        split
        · exact ⟨hs, fun h => (by cases h), fun h => (by cases h), fun h => absurd h hno⟩
        · exact ⟨hs, fun _ => hsigned hzero, fun h => (by cases h), fun h => absurd h hno⟩

theorem pqcErrorFromCode_eq_limit_iff (error : BitcoinPqcError) :
    pqcErrorFromCode error.code = .signingLimitExceeded ↔ error = .signingLimit := by
  cases error <;> decide

/-- What the statistics of a signature say. -/
structure SigningStats.Signed (E : Build) (s : SigningStats) : Prop where
  capExceeded : s.capExceeded = 0
  layers : s.wotscAttempts.length = 5
  forsc : 1 ≤ s.forscAttempts ∧ s.forscAttempts ≤ s.forscMaxAttempts
  forscMax : s.forscMaxAttempts = E.forscMaxGrindAttempts
  wotsc : ∀ a ∈ s.wotscAttempts, 1 ≤ a ∧ a ≤ s.wotscMaxAttempts
  wotscMax : s.wotscMaxAttempts = E.wotscMaxCounter + 1
  observed : s.wotscMaxObservedAttempts = s.wotscAttempts.foldl max 0

/-- `from_raw` keeps all layers of a run that signed. -/
theorem SignedStats.fromRaw {raw : SignStats} (h : SignedStats E raw) :
    (SigningStats.fromRaw raw).Signed E := by
  have hattempts : (SigningStats.fromRaw raw).wotscAttempts = raw.wotscAttempts.toList := by
    rw [SigningStats.fromRaw, h.layerCount]
    exact List.take_of_length_le Vector.length_toList.le
  refine ⟨h.capExceeded, ?_, ⟨h.forsc.1, ?_⟩, h.forscMax, ?_, h.wotscMax, ?_⟩
  · rw [hattempts]
    exact Vector.length_toList
  · exact h.forsc.2.trans h.forscMax.ge
  · intro a ha
    rw [hattempts] at ha
    exact ⟨(h.wotsc a ha).1, (h.wotsc a ha).2.trans h.wotscMax.ge⟩
  · rw [hattempts]
    exact h.observed

/-- `sign_with_stats` never panics and does what `sign` does, and its statistics match what
happened: after a signature no cap was exceeded and every layer has its attempts, and after an
error a cap was exceeded exactly when the error is the limit. Only a key of the wrong length
has no statistics. -/
theorem signWithStats_matches_sign (E : Build) (H : HashFns) (A : Allocator)
    (secretKey : SecretKey) (message : List UInt8) (heap : Heap) (T : ThreadState) :
    ∃ value, (signWithStats E H A secretKey message heap T).value = some value ∧
      (value.map Prod.fst).mapError SignWithStatsError.error =
        (sign E H A secretKey message heap T).value ∧
      (signWithStats E H A secretKey message heap T).heap =
        (sign E H A secretKey message heap T).heap ∧
      (∀ signature stats, value = .ok (signature, stats) → stats.Signed E) ∧
      ∀ error, value = .error error →
        (error.stats = none ↔ secretKey.bytes.length ≠ slhDsaSecretKeySize) ∧
          (error.error = .signingLimitExceeded ↔
            ∃ stats, error.stats = some stats ∧ stats.capExceeded ≠ 0) := by
  by_cases hsize : secretKey.bytes.length = slhDsaSecretKeySize
  swap
  · have hinner (stats : Option SignStats) :
        signInner E H A secretKey message stats heap T = ⟨.error ⟨.badKey, none⟩, heap, T⟩ :=
      if_pos hsize
    refine ⟨.error ⟨.badKey, none⟩, ?_, ?_, ?_, nofun, ?_⟩
    · rw [signWithStats, hinner]
    · rw [sign, hinner]
      rfl
    · rw [signWithStats, sign, hinner, hinner]
    · rintro _ ⟨⟩
      exact ⟨⟨fun _ => hsize, fun _ => rfl⟩, nofun, fun ⟨_, h, _⟩ => (by cases h)⟩
  obtain ⟨s, hs, hsigned, hlimit⟩ := stats_bitcoinPqcSignImpl (E := E) (H := H) (A := A)
    secretKey.bytes message (z := zeroStats) rfl heap T
  rw [signWithStats, sign, signInner_eq hsize, signInner_eq hsize, hsize,
    bitcoinPqcSignImpl_none _ _ _ _ _ (some zeroStats)]
  generalize bitcoinPqcSignImpl E H A (some secretKey.bytes) slhDsaSecretKeySize
    (some message) message.length (some .empty) (some zeroStats) heap T = r
    at hs hsigned hlimit
  by_cases herror : r.error = .ok
  · refine ⟨.ok (⟨toVec r.heap (r.signature.getD .empty).signature
      (r.signature.getD .empty).signatureSize⟩, SigningStats.fromRaw s), ?_, ?_, ?_, ?_, nofun⟩
    · simp [signInnerCalled, herror, hs]
    · simp [signInnerCalled, herror, Except.map, Except.mapError]
    · simp [signInnerCalled, herror]
    · rintro _ _ ⟨⟩
      exact (hsigned herror).fromRaw
  · refine ⟨.error ⟨pqcErrorFromCode r.error.code, some (SigningStats.fromRaw s)⟩, ?_, ?_, ?_,
      nofun, ?_⟩
    · simp [signInnerCalled, herror, hs]
    · simp [signInnerCalled, herror, Except.map, Except.mapError]
    · simp [signInnerCalled, herror]
    · rintro _ ⟨⟩
      refine ⟨⟨nofun, fun h => absurd rfl h⟩, ?_⟩
      rw [pqcErrorFromCode_eq_limit_iff, hlimit]
      refine ⟨fun h => ⟨_, rfl, h⟩, ?_⟩
      rintro ⟨_, ⟨⟩, h⟩
      exact h

end Rust

end BitcoinPqc
