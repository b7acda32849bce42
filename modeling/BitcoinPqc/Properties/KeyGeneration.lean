import BitcoinPqc.Api.BitcoinPqc
import BitcoinPqc.Properties.Keys
import BitcoinPqc.Properties.SignVerify

/-!
# Entropy and errors of key generation

Key generation hashes a domain string, the length of its entropy and the entropy itself.
The length has a fixed place in front of the entropy, so no input of the hash is the
beginning of another one, and keys that agree in their seeds come from the same entropy or
from two inputs with the same truncated digest.

The public function reports a failed request for memory as such. A seed-derivation buffer
whose size does not fit in `size_t` is not requested at all and is reported as a bad key.
-/

namespace BitcoinPqc

/-!
## The input of the hash
-/

theorem length_storeU64Le (value : ℕ) : (storeU64Le value).length = 8 := by
  simp [storeU64Le]

theorem storeU64Le_injective {a b : ℕ} (ha : a < 2 ^ 64) (hb : b < 2 ^ 64)
    (h : storeU64Le a = storeU64Le b) : a = b := by
  apply Nat.eq_of_testBit_eq
  intro k
  by_cases hk : k < 64
  · have hbit (x : ℕ) :
        (UInt8.ofNat (x >>> (8 * (k / 8)))).toNat.testBit (k % 8) = x.testBit k := by
      rw [UInt8.toNat_ofNat', Nat.testBit_mod_two_pow, Nat.testBit_shiftRight,
        Nat.div_add_mod, decide_eq_true (Nat.mod_lt k (by decide)), Bool.true_and]
    have hbyte := List.map_inj_left.mp h (k / 8) (List.mem_range.mpr (by omega))
    rw [← hbit a, ← hbit b, hbyte]
  · have hhigh (x : ℕ) (hx : x < 2 ^ 64) : x.testBit k = false :=
      Nat.testBit_lt_two_pow (hx.trans_le (Nat.pow_le_pow_right (by decide) (not_lt.mp hk)))
    rw [hhigh a ha, hhigh b hb]

theorem take_eq_of_keygenInput_begins {e e' : List UInt8} {n n' : ℕ} (hlen : n ≤ e.length)
    (hlen' : n' ≤ e'.length) (hn : n ≤ sizeMax) (hn' : n' ≤ sizeMax)
    (h : keygenInput e n <+: keygenInput e' n') : e.take n = e'.take n' := by
  obtain ⟨t, ht⟩ := h
  simp only [keygenInput, List.append_assoc] at ht
  have hfields := List.append_cancel_left (List.append_cancel_left ht)
  obtain ⟨hsize, hrest⟩ := List.append_inj hfields
    ((length_storeU64Le n).trans (length_storeU64Le n').symm)
  have hsame : n = n' :=
    storeU64Le_injective (Nat.lt_of_le_pred (by decide) hn) (Nat.lt_of_le_pred (by decide) hn')
      hsize
  have htotal := congrArg List.length hrest
  rw [List.length_append, List.length_take, List.length_take, Nat.min_eq_left hlen,
    Nat.min_eq_left hlen'] at htotal
  have hnil : t = [] := List.eq_nil_of_length_eq_zero (by omega)
  rw [← hrest, hnil, List.append_nil]

theorem keygenInput_congr {e e' : List UInt8} {n n' : ℕ} (hlen : n ≤ e.length)
    (hlen' : n' ≤ e'.length) (h : e.take n = e'.take n') :
    keygenInput e n = keygenInput e' n' := by
  have hsize := congrArg List.length h
  rw [List.length_take, List.length_take, Nat.min_eq_left hlen, Nat.min_eq_left hlen']
    at hsize
  rw [keygenInput, keygenInput, h, hsize]

theorem slhDsaKeygen_code (E : Build) (H : HashFns) (A : Allocator) {randomDataSize : ℕ}
    (hmin : slhDsaKeygenRandomDataMinSize ≤ randomDataSize) (pk : Vector UInt8 32)
    (sk : Vector UInt8 64) (randomData : List UInt8) (heap : Heap) (T : ThreadState) :
    (slhDsaKeygen E H A (some pk) (some sk) (some randomData) randomDataSize heap
        T).val.code =
      if sizeMax < keygenInputSize randomDataSize then -1
      else if (heap.malloc A (keygenInputSize randomDataSize)).1 = none then
        slhDsaKeygenErrorOutOfMemory
      else 0 := by
  rw [slhDsaKeygen, slhDsaKeygenImpl, if_neg (not_lt.mpr hmin)]
  rcases deriveKeygenSeedV1_cases H A randomData randomDataSize heap with
    ⟨hlarge, hderive⟩ | ⟨hfits, hnone, hderive⟩ | ⟨hfits, input, seed, hsome, _, hderive⟩
  · rw [hderive, if_pos hlarge]
    rfl
  · rw [hderive, if_neg (not_lt.mpr hfits), if_pos hnone]
    rfl
  · have hval := cryptoSignSeedKeypair_val E H seed pk sk T
    rw [hderive, if_neg (not_lt.mpr hfits), hsome, if_neg (Option.some_ne_none input)]
    simp only [Traced.val_bind, hval, Traced.val_pure]
    rfl

/-- The secret key of a successful call starts with the digest of its input. -/
theorem slhDsaKeygen_sk_eq {E : Build} {H : HashFns} {A : Allocator}
    {pk : Option (Vector UInt8 32)} {sk : Option (Vector UInt8 64)} {e : List UInt8} {n : ℕ}
    {heap : Heap} {T : ThreadState} (hlen : n ≤ e.length)
    (h : (slhDsaKeygen E H A pk sk (some e) n heap T).val.code = 0) :
    ((slhDsaKeygen E H A pk sk (some e) n heap T).val.sk.map fun k => slice k 0 48) =
        some (slice (H.sha512 (keygenInput e n)) 0 48) ∧ n ≤ sizeMax := by
  obtain ⟨seed, hsk, _, hfits, hseed⟩ := slhDsaKeygen_eq_zero E H A h
  have hslice : slice (seed ++ seedRoot H seed : Vector UInt8 64) 0 48 = seed :=
    slice_append_left seed (seedRoot H seed)
  rw [hsk, Option.map_some, hslice, hseed e rfl hlen]
  exact ⟨rfl, (Nat.le_add_left _ _).trans hfits⟩

/-- What key generation does with its entropy. Keys that agree in their first 48 bytes come
from the same entropy, or their inputs of the hash are two strings whose digests agree in
their first 48 bytes. No input is a proper prefix of another, an input fills its buffer,
and the size of the buffer is computed without wrapping or not at all. -/
theorem keygen_binds_entropy (H : HashFns) :
    (∀ (E E' : Build) (A A' : Allocator) (pk pk' : Option (Vector UInt8 32))
        (sk sk' : Option (Vector UInt8 64)) (e e' : List UInt8) (n n' : ℕ)
        (heap heap' : Heap) (T T' : ThreadState), n ≤ e.length → n' ≤ e'.length →
      (slhDsaKeygen E H A pk sk (some e) n heap T).val.code = 0 →
      (slhDsaKeygen E' H A' pk' sk' (some e') n' heap' T').val.code = 0 →
      ((slhDsaKeygen E H A pk sk (some e) n heap T).val.sk.map fun k => slice k 0 48) =
        ((slhDsaKeygen E' H A' pk' sk' (some e') n' heap' T').val.sk.map
          fun k => slice k 0 48) →
      e.take n = e'.take n' ∨
        (keygenInput e n ≠ keygenInput e' n' ∧
          slice (H.sha512 (keygenInput e n)) 0 48 =
            slice (H.sha512 (keygenInput e' n')) 0 48)) ∧
      (∀ (e e' : List UInt8) (n n' : ℕ), n ≤ e.length → n' ≤ e'.length → n ≤ sizeMax →
        n' ≤ sizeMax → keygenInput e n <+: keygenInput e' n' →
          keygenInput e n = keygenInput e' n') ∧
      (∀ (e : List UInt8) (n : ℕ), n ≤ e.length →
        (keygenInput e n).length = keygenInputSize n) ∧
      keygenDeriveDomain.length + 1 + 8 ≤ sizeMax ∧
      ∀ n ≤ sizeMax,
        (n ≤ sizeMax - (keygenDeriveDomain.length + 1 + 8) →
          (keygenDeriveDomain.length + 1 + 8 + n) % 2 ^ 64 = keygenInputSize n) ∧
        (sizeMax - (keygenDeriveDomain.length + 1 + 8) < n →
          ∀ (A : Allocator) (e : List UInt8) (heap : Heap),
            deriveKeygenSeedV1 H A e n heap = (.error (-1), heap)) := by
  refine ⟨?_, ?_, fun e n => length_keygenInput, by decide, ?_⟩
  · intro E E' A A' pk pk' sk sk' e e' n n' heap heap' T T' hlen hlen' hcode hcode' hsame
    obtain ⟨hsk, hn⟩ := slhDsaKeygen_sk_eq hlen hcode
    obtain ⟨hsk', hn'⟩ := slhDsaKeygen_sk_eq hlen' hcode'
    rw [hsk, hsk', Option.some.injEq] at hsame
    by_cases hinput : keygenInput e n = keygenInput e' n'
    · exact Or.inl (take_eq_of_keygenInput_begins hlen hlen' hn hn'
        ⟨[], (List.append_nil _).trans hinput⟩)
    · exact Or.inr ⟨hinput, hsame⟩
  · intro e e' n n' hlen hlen' hn hn' hbegins
    exact keygenInput_congr hlen hlen' (take_eq_of_keygenInput_begins hlen hlen' hn hn' hbegins)
  · intro n _
    refine ⟨fun h => (keygenInputSize_mod h).2, fun h A e heap => ?_⟩
    rw [deriveKeygenSeedV1]
    exact if_pos h

/-- With a constant hash function two entropies of different lengths give the same key. -/
theorem keygen_binds_entropy_constantHash :
    slice (constantHash.sha512 (keygenInput (List.replicate 128 0) 128)) 0 48 =
      slice (constantHash.sha512 (keygenInput (List.replicate 129 0) 129)) 0 48 := by
  have hcode (n : ℕ) (hmin : 128 ≤ n) (hfits : ¬ sizeMax < keygenInputSize n) :
      (slhDsaKeygen smallestCaps constantHash countingAllocator
        (some (Vector.replicate 32 0)) (some (Vector.replicate 64 0))
        (some (List.replicate n 0)) n Heap.empty ThreadState.fresh).val.code = 0 := by
    rw [slhDsaKeygen_code _ _ _ hmin, if_neg hfits]
    exact if_neg (Option.some_ne_none _)
  have hcode₁ := hcode 128 (by decide) (by decide)
  have hcode₂ := hcode 129 (by decide) (by decide)
  have hlen (n : ℕ) : n ≤ (List.replicate n (0 : UInt8)).length :=
    List.length_replicate.ge
  have hsame := (slhDsaKeygen_sk_eq (hlen 128) hcode₁).1.trans
    (slhDsaKeygen_sk_eq (hlen 129) hcode₂).1.symm
  rcases (keygen_binds_entropy constantHash).1 _ _ _ _ _ _ _ _ _ _ _ _ _ _ _ _ (hlen 128)
    (hlen 129) hcode₁ hcode₂ hsame with h | ⟨_, h⟩
  · have hsizes := congrArg List.length h
    simp at hsizes
  · exact h

/-!
## Error codes
-/

variable (E : Build) (H : HashFns) (A : Allocator)

/-- A request for one of the two key buffers fails. -/
def KeyBufferFails (heap : Heap) : Prop :=
  (heap.malloc A slhDsaPublicKeySize).1 = none ∨
    ((heap.malloc A slhDsaPublicKeySize).2.malloc A slhDsaSecretKeySize).1 = none

/-- The seed-derivation buffer cannot be allocated after the key buffers: `size_t` has no
number for its size or the request fails. -/
def SeedBufferFails (randomDataSize : ℕ) (heap : Heap) : Prop :=
  sizeMax < keygenInputSize randomDataSize ∨
    (((heap.malloc A slhDsaPublicKeySize).2.malloc A slhDsaSecretKeySize).2.malloc A
      (keygenInputSize randomDataSize)).1 = none

/-- What the contract of `bitcoin_pqc_keygen` says about its error codes. -/
structure KeygenContract (randomDataSize : ℕ) (heap : Heap) (r : KeygenResult) : Prop where
  ok : ¬ KeyBufferFails A heap → ¬ SeedBufferFails A randomDataSize heap → r.error = .ok
  outOfMemory : KeyBufferFails A heap ∨ SeedBufferFails A randomDataSize heap →
    r.error = .outOfMemory ∧ r.keypair = some Keypair.empty
  not_badKey : r.error ≠ .badKey

theorem bitcoinPqcKeygenAllocated_error {randomDataSize : ℕ}
    (hmin : slhDsaKeygenRandomDataMinSize ≤ randomDataSize) (keypair : Option Keypair)
    (randomData : List UInt8) (pk sk : Option ℕ) (heap : Heap) (T : ThreadState) :
    let r := bitcoinPqcKeygenAllocated E H A keypair (some randomData) randomDataSize pk sk
      heap T
    r.error = (if pk = none ∨ sk = none then .outOfMemory
        else if sizeMax < keygenInputSize randomDataSize then .badKey
        else if (heap.malloc A (keygenInputSize randomDataSize)).1 = none then .outOfMemory
        else .ok) ∧
      (r.error ≠ .ok → r.keypair = keypair) := by
  intro r
  simp only [r, bitcoinPqcKeygenAllocated, Option.isNone_iff_eq_none]
  by_cases hfail : pk = none ∨ sk = none
  · rw [if_pos hfail, if_pos hfail]
    exact ⟨rfl, fun _ => rfl⟩
  · rw [if_neg hfail, if_neg hfail]
    simp only [slhDsaKeygen_code E H A hmin]
    by_cases hlarge : sizeMax < keygenInputSize randomDataSize
    · simp only [if_pos hlarge]
      exact ⟨rfl, fun _ => rfl⟩
    · simp only [if_neg hlarge]
      split
      · exact ⟨rfl, fun _ => rfl⟩
      · exact ⟨rfl, fun h => absurd rfl h⟩

section EmptyStruct

variable {A} {randomDataSize : ℕ} (hmin : slhDsaKeygenRandomDataMinSize ≤ randomDataSize)
  (randomData : List UInt8) {heap : Heap} (T : ThreadState)

include hmin

theorem bitcoinPqcKeygen_error :
    let r := bitcoinPqcKeygen E H A (some Keypair.empty) (some randomData) randomDataSize
      heap T
    let heap₂ := ((heap.malloc A slhDsaPublicKeySize).2.malloc A slhDsaSecretKeySize).2
    r.error = (if (heap.malloc A slhDsaPublicKeySize).1 = none ∨
          ((heap.malloc A slhDsaPublicKeySize).2.malloc A slhDsaSecretKeySize).1 = none then
            .outOfMemory
        else if sizeMax < keygenInputSize randomDataSize then .badKey
        else if (heap₂.malloc A (keygenInputSize randomDataSize)).1 = none then .outOfMemory
        else .ok) ∧
      (r.error ≠ .ok → r.keypair = some Keypair.empty) := by
  have harg : ¬ ((some Keypair.empty).isNone ∨ (some randomData).isNone) := by
    rintro (h | h)
    · cases h
    · cases h
  intro r heap₂
  simp only [r]
  rw [bitcoinPqcKeygen, if_neg harg, if_neg (by decide), if_neg (not_lt.mpr hmin)]
  exact bitcoinPqcKeygenAllocated_error E H A hmin _ randomData _ _ _ T

theorem bitcoinPqcKeygen_of_keyBufferFails (h : KeyBufferFails A heap) :
    let r := bitcoinPqcKeygen E H A (some Keypair.empty) (some randomData) randomDataSize
      heap T
    r.error = .outOfMemory ∧ r.keypair = some Keypair.empty := by
  obtain ⟨herror, hkeypair⟩ := bitcoinPqcKeygen_error E H hmin randomData T
  have hcode := herror.trans (if_pos h)
  exact ⟨hcode, hkeypair fun hok => by rw [hcode] at hok; cases hok⟩

/-- The size of the seed-derivation buffer overflows. -/
theorem bitcoinPqcKeygen_of_overflow (h : ¬ KeyBufferFails A heap)
    (hlarge : sizeMax < keygenInputSize randomDataSize) :
    let r := bitcoinPqcKeygen E H A (some Keypair.empty) (some randomData) randomDataSize
      heap T
    r.error = .badKey ∧ r.keypair = some Keypair.empty := by
  obtain ⟨herror, hkeypair⟩ := bitcoinPqcKeygen_error E H hmin randomData T
  have hcode := (herror.trans (if_neg h)).trans (if_pos hlarge)
  exact ⟨hcode, hkeypair fun hok => by rw [hcode] at hok; cases hok⟩

theorem bitcoinPqcKeygen_of_fits (h : ¬ KeyBufferFails A heap)
    (hfits : keygenInputSize randomDataSize ≤ sizeMax) :
    let r := bitcoinPqcKeygen E H A (some Keypair.empty) (some randomData) randomDataSize
      heap T
    (SeedBufferFails A randomDataSize heap →
        r.error = .outOfMemory ∧ r.keypair = some Keypair.empty) ∧
      (¬ SeedBufferFails A randomDataSize heap → r.error = .ok) := by
  obtain ⟨herror, hkeypair⟩ := bitcoinPqcKeygen_error E H hmin randomData T
  have hlast := (herror.trans (if_neg h)).trans (if_neg (not_lt.mpr hfits))
  constructor
  · rintro (hlarge | hnone)
    · exact absurd hfits (not_le.mpr hlarge)
    · have hcode := hlast.trans (if_pos hnone)
      exact ⟨hcode, hkeypair fun hok => by rw [hcode] at hok; cases hok⟩
  · intro hseed
    exact hlast.trans (if_neg fun hnone => hseed (Or.inr hnone))

end EmptyStruct

/-- The contract is kept exactly by the calls whose seed-derivation buffer has a size that
`size_t` can hold, and by those that fail before they get to it. -/
theorem bitcoinPqcKeygen_contract_iff (randomData : List UInt8) (randomDataSize : ℕ)
    (hmin : slhDsaKeygenRandomDataMinSize ≤ randomDataSize) (heap : Heap) (T : ThreadState) :
    KeygenContract A randomDataSize heap
        (bitcoinPqcKeygen E H A (some Keypair.empty) (some randomData) randomDataSize heap T) ↔
      keygenInputSize randomDataSize ≤ sizeMax ∨ KeyBufferFails A heap := by
  by_cases hkeys : KeyBufferFails A heap
  · have hfail := bitcoinPqcKeygen_of_keyBufferFails E H hmin randomData T hkeys
    refine ⟨fun _ => Or.inr hkeys, fun _ => ⟨fun h => absurd hkeys h, fun _ => hfail, ?_⟩⟩
    rw [hfail.1]
    decide
  by_cases hfits : keygenInputSize randomDataSize ≤ sizeMax
  · obtain ⟨hfail, hok⟩ := bitcoinPqcKeygen_of_fits E H hmin randomData T hkeys hfits
    refine ⟨fun _ => Or.inl hfits, fun _ => ⟨fun _ => hok, ?_, ?_⟩⟩
    · rintro (h | h)
      · exact absurd h hkeys
      · exact hfail h
    · by_cases hseed : SeedBufferFails A randomDataSize heap
      · rw [(hfail hseed).1]
        decide
      · rw [hok hseed]
        decide
  · have hbad := bitcoinPqcKeygen_of_overflow E H hmin randomData T hkeys (not_le.mp hfits)
    refine ⟨fun h => absurd hbad.1 h.not_badKey, ?_⟩
    rintro (h | h)
    · exact absurd h hfits
    · exact absurd h hkeys

/-- The smallest entropy. -/
theorem bitcoinPqcKeygen_contract_minimum :
    KeygenContract countingAllocator 128 Heap.empty
      (bitcoinPqcKeygen smallestCaps constantHash countingAllocator (some Keypair.empty)
        (some (List.replicate 128 0)) 128 Heap.empty ThreadState.fresh) :=
  (bitcoinPqcKeygen_contract_iff smallestCaps constantHash countingAllocator
    (List.replicate 128 0) 128 le_rfl Heap.empty ThreadState.fresh).mpr
    (Or.inl (by decide))

/-- The largest size is reported as a bad key, although both key buffers are there. -/
theorem bitcoinPqcKeygen_contract_broken :
    ¬ KeygenContract countingAllocator sizeMax Heap.empty
        (bitcoinPqcKeygen smallestCaps constantHash countingAllocator (some Keypair.empty)
          (some (List.replicate 128 0)) sizeMax Heap.empty ThreadState.fresh) ∧
      ¬ KeyBufferFails countingAllocator Heap.empty ∧
      (bitcoinPqcKeygen smallestCaps constantHash countingAllocator (some Keypair.empty)
        (some (List.replicate 128 0)) sizeMax Heap.empty ThreadState.fresh).error =
          .badKey := by
  have hmin : slhDsaKeygenRandomDataMinSize ≤ sizeMax := by decide
  have hkeys : ¬ KeyBufferFails countingAllocator Heap.empty := by
    rintro (h | h)
    · revert h
      decide
    · revert h
      decide
  have hbad := (bitcoinPqcKeygen_of_overflow smallestCaps constantHash hmin
    (List.replicate 128 0) ThreadState.fresh hkeys (by decide)).1
  exact ⟨fun h => h.not_badKey hbad, hkeys, hbad⟩

end BitcoinPqc
