import BitcoinPqc.Api.Machine
import BitcoinPqc.Foundation.Requests
import BitcoinPqc.Properties.KeyGeneration

/-!
# Key generation as a function of the answers to its requests

What the caller sees of a key generation, the code and the bytes behind the pointers of the
struct, depends on the entropy and on which requests for memory are granted. It does not
depend on where the buffers are and on what they held.
-/

namespace BitcoinPqc

variable {H : HashFns} {A : Allocator}

/-- What the caller finds in a struct: behind each pointer NULL or the bytes of the buffer,
and the size next to it. -/
abbrev Reading := List (Option (List UInt8) × ℕ)

namespace Heap

/-- The answers to the requests that were made on the way from `h` to `h'`. -/
def answersSince (h h' : Heap) : List Bool := h'.answers.drop h.answers.length

theorem answersSince_eq {h h' : Heap} {l : List Bool} (hl : h'.answers = h.answers ++ l) :
    h.answersSince h' = l := by
  rw [answersSince, hl, List.drop_left]

/-- What is behind a pointer. -/
def contents (h : Heap) (p : Option ℕ) : Option (List UInt8) :=
  p.map fun a => h.load (some a)

theorem contents_eq_none {h : Heap} {p : Option ℕ} : h.contents p = none ↔ p = none :=
  Option.map_eq_none_iff

end Heap

def Keypair.read (k : Keypair) (h : Heap) : Reading :=
  [(h.contents k.publicKey, k.publicKeySize), (h.contents k.secretKey, k.secretKeySize)]

def Signature.read (g : Signature) (h : Heap) : Reading :=
  [(h.contents g.signature, g.signatureSize)]

/-- What the caller finds in a key pair struct with all bytes zero. -/
def Keypair.emptyReading : Reading := [(none, 0), (none, 0)]

/-- What the caller finds in a signature struct with all bytes zero. -/
def Signature.emptyReading : Reading := [(none, 0)]

theorem Keypair.read_eq_emptyReading_iff {k : Keypair} {h : Heap} :
    k.read h = Keypair.emptyReading ↔ k = Keypair.empty := by
  rw [Keypair.ext_iff]
  simp [Keypair.read, Keypair.emptyReading, Keypair.empty, Heap.contents_eq_none, and_assoc,
    and_left_comm]

theorem Signature.read_eq_emptyReading_iff {g : Signature} {h : Heap} :
    g.read h = Signature.emptyReading ↔ g = Signature.empty := by
  rw [Signature.ext_iff]
  simp [Signature.read, Signature.emptyReading, Signature.empty, Heap.contents_eq_none]

/-!
## What key generation comes to
-/

section Keygen

variable (H)

/-- What `derive_keygen_seed_v1` comes to. -/
def deriveKeygenSeedV1Asks (randomData : List UInt8) (randomDataSize : ℕ) :
    Asks (Except Int (Vector UInt8 48)) :=
  if sizeMax < keygenInputSize randomDataSize then .done (.error (-1))
  else .ask fun input =>
    if input then .done (.ok (slice (H.sha512 (keygenInput randomData randomDataSize)) 0 48))
    else .done (.error slhDsaKeygenErrorOutOfMemory)

/-- The code and the output buffers of `slh_dsa_keygen`, given the seed or an error code. -/
def keysOfSeed (pk : Vector UInt8 32) (sk : Vector UInt8 64) :
    Except Int (Vector UInt8 48) → Int × Vector UInt8 32 × Vector UInt8 64
  | .error code => (code, pk, sk)
  | .ok seed => (0, slice seed 32 16 ++ seedRoot H seed, seed ++ seedRoot H seed)

/-- What `slh_dsa_keygen` comes to. -/
def slhDsaKeygenAsks (pk : Option (Vector UInt8 32)) (sk : Option (Vector UInt8 64))
    (randomData : Option (List UInt8)) (randomDataSize : ℕ) : Asks Outcome :=
  match pk, sk, randomData with
  | some pk, some sk, some randomData =>
      if randomDataSize < slhDsaKeygenRandomDataMinSize then
        .done (.keys (-1) (some pk) (some sk))
      else
        (deriveKeygenSeedV1Asks H randomData randomDataSize).map fun seed =>
          .keys (keysOfSeed H pk sk seed).1 (some (keysOfSeed H pk sk seed).2.1)
            (some (keysOfSeed H pk sk seed).2.2)
  | pk, sk, _ => .done (.keys (-1) pk sk)

/-- What `bitcoin_pqc_keygen` returns and leaves, given the seed or an error code. -/
def keypairOfSeed : Except Int (Vector UInt8 48) → BitcoinPqcError × Option Reading
  | .error code =>
      (if code = slhDsaKeygenErrorOutOfMemory then .outOfMemory else .badKey,
        some Keypair.emptyReading)
  | .ok seed =>
      (.ok, some
        [(some (slice seed 32 16 ++ seedRoot H seed).toList, slhDsaPublicKeySize),
          (some (seed ++ seedRoot H seed).toList, slhDsaSecretKeySize)])

/-- What `bitcoin_pqc_keygen` comes to after its checks. -/
def keyBuffersAsks (randomData : List UInt8) (randomDataSize : ℕ) :
    Asks (BitcoinPqcError × Option Reading) :=
  .ask fun pk => .ask fun sk =>
    if pk ∧ sk then
      (deriveKeygenSeedV1Asks H randomData randomDataSize).map (keypairOfSeed H)
    else .done (.outOfMemory, some Keypair.emptyReading)

/-- What `bitcoin_pqc_keygen` comes to. -/
def bitcoinPqcKeygenAsks (keypair : Option Reading) (randomData : Option (List UInt8))
    (randomDataSize : ℕ) : Asks (BitcoinPqcError × Option Reading) :=
  if keypair.isNone ∨ randomData.isNone then .done (.badArg, keypair)
  else if keypair ≠ some Keypair.emptyReading then .done (.badArg, keypair)
  else if randomDataSize < slhDsaKeygenRandomDataMinSize then .done (.badArg, keypair)
  else keyBuffersAsks H (randomData.getD []) randomDataSize

variable {H}

/-- The entropy has as many bytes as the caller says, where a call gets as far as reading
them. -/
def EntropyInBounds (randomData : Option (List UInt8)) (randomDataSize : ℕ) : Prop :=
  slhDsaKeygenRandomDataMinSize ≤ randomDataSize → keygenInputSize randomDataSize ≤ sizeMax →
    ∀ e ∈ randomData, randomDataSize ≤ e.length

section Derive

variable {randomData : List UInt8} {randomDataSize : ℕ}

theorem deriveKeygenSeedV1_runs
    (hlen : keygenInputSize randomDataSize ≤ sizeMax → randomDataSize ≤ randomData.length)
    (heap : Heap) :
    ∃ l, (deriveKeygenSeedV1 H A randomData randomDataSize heap).2.answers =
        heap.answers ++ l ∧
      (deriveKeygenSeedV1Asks H randomData randomDataSize).Runs l
        (deriveKeygenSeedV1 H A randomData randomDataSize heap).1 := by
  have hmalloc := Heap.answers_malloc A (keygenInputSize randomDataSize) heap
  rw [deriveKeygenSeedV1Asks]
  rcases deriveKeygenSeedV1_cases H A randomData randomDataSize heap with
    ⟨hlarge, hderive⟩ | ⟨hfits, hnone, hderive⟩ | ⟨hfits, input, seed, hsome, hseed, hderive⟩
  · rw [hderive, if_pos hlarge]
    exact ⟨[], (List.append_nil _).symm, Asks.Runs.done _⟩
  · rw [hderive, if_neg (not_lt.mpr hfits)]
    rw [hnone] at hmalloc
    exact ⟨[false], hmalloc, Asks.Runs.ask (Asks.Runs.done _)⟩
  · rw [hderive, if_neg (not_lt.mpr hfits), hseed (hlen hfits)]
    rw [hsome] at hmalloc
    refine ⟨[true], ?_, Asks.Runs.ask (Asks.Runs.done _)⟩
    rw [Heap.answers_free, Heap.answers_zero, Heap.answers_store]
    exact hmalloc

theorem deriveKeygenSeedV1_error_ne_zero {heap : Heap} {code : Int}
    (h : (deriveKeygenSeedV1 H A randomData randomDataSize heap).1 = .error code) :
    code ≠ 0 := by
  rcases deriveKeygenSeedV1_cases H A randomData randomDataSize heap with
    ⟨_, hderive⟩ | ⟨_, _, hderive⟩ | ⟨_, input, seed, _, _, hderive⟩
  · rw [hderive] at h
    cases h
    decide
  · rw [hderive] at h
    cases h
    decide
  · rw [hderive] at h
    cases h

/-- The buffer of the seed derivation is none of those that were live before. -/
theorem blocks_deriveKeygenSeedV1 (H : HashFns) (A : Allocator) (randomData : List UInt8)
    (randomDataSize : ℕ) {heap : Heap} {a : ℕ} (hlive : heap.blocks a ≠ none) :
    (deriveKeygenSeedV1 H A randomData randomDataSize heap).2.blocks a = heap.blocks a := by
  have hmalloc := Heap.blocks_malloc_of_live A (keygenInputSize randomDataSize) hlive
  rcases deriveKeygenSeedV1_cases H A randomData randomDataSize heap with
    ⟨_, hderive⟩ | ⟨_, _, hderive⟩ | ⟨_, input, seed, hsome, _, hderive⟩
  · rw [hderive]
  · rw [hderive]
    exact hmalloc
  · have hne : a ≠ input := by
      rintro rfl
      exact hlive (Heap.blocks_eq_none_of_malloc hsome)
    rw [hderive]
    simp only [Heap.free, Heap.zero]
    rw [Function.update_of_ne hne, Heap.blocks_store_of_ne hne, Heap.blocks_store_of_ne hne]
    exact hmalloc

theorem slhDsaKeygen_val (hmin : slhDsaKeygenRandomDataMinSize ≤ randomDataSize)
    (pk : Vector UInt8 32) (sk : Vector UInt8 64) (heap : Heap) (T : ThreadState) :
    (slhDsaKeygen E H A (some pk) (some sk) (some randomData) randomDataSize heap T).val =
      ⟨(keysOfSeed H pk sk (deriveKeygenSeedV1 H A randomData randomDataSize heap).1).1,
        some (keysOfSeed H pk sk
          (deriveKeygenSeedV1 H A randomData randomDataSize heap).1).2.1,
        some (keysOfSeed H pk sk
          (deriveKeygenSeedV1 H A randomData randomDataSize heap).1).2.2,
        (deriveKeygenSeedV1 H A randomData randomDataSize heap).2, T⟩ := by
  rw [slhDsaKeygen, slhDsaKeygenImpl, if_neg (not_lt.mpr hmin)]
  obtain ⟨seed, heap'⟩ := deriveKeygenSeedV1 H A randomData randomDataSize heap
  cases seed with
  | error code => rfl
  | ok seed =>
      simp only [Traced.val_bind, Traced.val_pure, cryptoSignSeedKeypair_val]
      rfl

end Derive

theorem slhDsaKeygen_runs (E : Build) (pk : Option (Vector UInt8 32))
    (sk : Option (Vector UInt8 64)) {randomData : Option (List UInt8)} {randomDataSize : ℕ}
    (hlen : EntropyInBounds randomData randomDataSize) (heap : Heap) (T : ThreadState) :
    let r := (slhDsaKeygen E H A pk sk randomData randomDataSize heap T).val
    ∃ l, r.heap.answers = heap.answers ++ l ∧
      (slhDsaKeygenAsks H pk sk randomData randomDataSize).Runs l (.keys r.code r.pk r.sk) := by
  intro r
  have hrejected (h : r = ⟨-1, pk, sk, heap, T⟩)
      (hasks : slhDsaKeygenAsks H pk sk randomData randomDataSize = .done (.keys (-1) pk sk)) :
      ∃ l, r.heap.answers = heap.answers ++ l ∧
        (slhDsaKeygenAsks H pk sk randomData randomDataSize).Runs l
          (.keys r.code r.pk r.sk) := by
    rw [h, hasks]
    exact ⟨[], (List.append_nil _).symm, Asks.Runs.done _⟩
  cases pk with
  | none => exact hrejected rfl rfl
  | some pk =>
    cases sk with
    | none => exact hrejected rfl rfl
    | some sk =>
      cases randomData with
      | none => exact hrejected rfl rfl
      | some randomData =>
        by_cases hmin : randomDataSize < slhDsaKeygenRandomDataMinSize
        · refine hrejected ?_ (if_pos hmin)
          simp only [r, slhDsaKeygen, slhDsaKeygenImpl]
          rw [if_pos hmin]
          rfl
        · obtain ⟨l, hl, hruns⟩ := deriveKeygenSeedV1_runs (H := H) (A := A)
            (fun hfits => hlen (not_lt.mp hmin) hfits randomData rfl) heap
          simp only [r]
          rw [slhDsaKeygen_val (not_lt.mp hmin), slhDsaKeygenAsks, if_neg hmin]
          exact ⟨l, hl, hruns.map _⟩

section Allocated

variable {randomData : List UInt8} {randomDataSize : ℕ}
  (hmin : slhDsaKeygenRandomDataMinSize ≤ randomDataSize) {pk sk : ℕ} {heap : Heap}

include hmin

theorem bitcoinPqcKeygenAllocated_eq (randomData : List UInt8) (pk sk : ℕ) (heap : Heap)
    (E : Build) (keypair : Option Keypair) (T : ThreadState) :
    let d := deriveKeygenSeedV1 H A randomData randomDataSize heap
    let keys := keysOfSeed H (bytesAt 32 (heap.load (some pk)))
      (bytesAt 64 (heap.load (some sk))) d.1
    let filled := (d.2.store (some pk) keys.2.1.toList).store (some sk) keys.2.2.toList
    let released := (((filled.zero (some pk) slhDsaPublicKeySize).zero (some sk)
      slhDsaSecretKeySize).free (some pk)).free (some sk)
    bitcoinPqcKeygenAllocated E H A keypair (some randomData) randomDataSize (some pk)
        (some sk) heap T =
      if keys.1 ≠ 0 then
        if keys.1 = slhDsaKeygenErrorOutOfMemory then ⟨.outOfMemory, keypair, released, T⟩
        else ⟨.badKey, keypair, released, T⟩
      else
        ⟨.ok, some ⟨some pk, some sk, slhDsaPublicKeySize, slhDsaSecretKeySize⟩, filled, T⟩ := by
  have hnone : ¬ ((some pk).isNone ∨ (some sk).isNone) := by
    rintro (h | h)
    · cases h
    · cases h
  intro d keys filled released
  rw [bitcoinPqcKeygenAllocated, if_neg hnone, slhDsaKeygen_val hmin]
  rfl

theorem bitcoinPqcKeygenAllocated_of_error (E : Build) {code : Int}
    (hcode : (deriveKeygenSeedV1 H A randomData randomDataSize heap).1 = .error code)
    (T : ThreadState) :
    let r := bitcoinPqcKeygenAllocated E H A (some Keypair.empty) (some randomData)
      randomDataSize (some pk) (some sk) heap T
    r.heap.answers = (deriveKeygenSeedV1 H A randomData randomDataSize heap).2.answers ∧
      (r.error, r.keypair.map fun k => k.read r.heap) = keypairOfSeed H (.error code) := by
  have hread (h : Heap) : Keypair.empty.read h = Keypair.emptyReading :=
    Keypair.read_eq_emptyReading_iff.mpr rfl
  have heq := bitcoinPqcKeygenAllocated_eq (H := H) (A := A) hmin randomData pk sk heap E
    (some Keypair.empty) T
  simp only [hcode, keysOfSeed] at heq
  replace heq := heq.trans (if_pos (deriveKeygenSeedV1_error_ne_zero hcode))
  intro r
  rw [keypairOfSeed]
  by_cases hmemory : code = slhDsaKeygenErrorOutOfMemory
  · rw [if_pos hmemory] at heq ⊢
    simp only [r, heq, Heap.answers_free, Heap.answers_zero, Heap.answers_store,
      Option.map_some, hread, and_self]
  · rw [if_neg hmemory] at heq ⊢
    simp only [r, heq, Heap.answers_free, Heap.answers_zero, Heap.answers_store,
      Option.map_some, hread, and_self]

theorem bitcoinPqcKeygenAllocated_of_ok (E : Build) {seed : Vector UInt8 48}
    {cpk csk : List UInt8} (hne : pk ≠ sk) (hpk : heap.blocks pk = some cpk)
    (hpklen : cpk.length = slhDsaPublicKeySize) (hsk : heap.blocks sk = some csk)
    (hsklen : csk.length = slhDsaSecretKeySize)
    (hseed : (deriveKeygenSeedV1 H A randomData randomDataSize heap).1 = .ok seed)
    (T : ThreadState) :
    let r := bitcoinPqcKeygenAllocated E H A (some Keypair.empty) (some randomData)
      randomDataSize (some pk) (some sk) heap T
    r.heap.answers = (deriveKeygenSeedV1 H A randomData randomDataSize heap).2.answers ∧
      (r.error, r.keypair.map fun k => k.read r.heap) = keypairOfSeed H (.ok seed) := by
  have hpk' := (blocks_deriveKeygenSeedV1 H A randomData randomDataSize
    (hpk ▸ Option.some_ne_none cpk)).trans hpk
  have hsk' := (blocks_deriveKeygenSeedV1 H A randomData randomDataSize
    (hsk ▸ Option.some_ne_none csk)).trans hsk
  have heq := bitcoinPqcKeygenAllocated_eq (H := H) (A := A) hmin randomData pk sk heap E
    (some Keypair.empty) T
  simp only [hseed, keysOfSeed] at heq
  replace heq := heq.trans (if_neg (not_not_intro rfl))
  obtain ⟨hloadpk, hloadsk⟩ := Heap.load_store_store hne hpk'
    (v := (slice seed 32 16 ++ seedRoot H seed).toList)
    (by rw [Vector.length_toList, hpklen]) hsk' (w := (seed ++ seedRoot H seed).toList)
    (by rw [Vector.length_toList, hsklen])
  intro r
  simp only [r, heq, Heap.answers_store, Option.map_some, Keypair.read, Heap.contents,
    hloadpk, hloadsk, keypairOfSeed, and_self]

/-- What the public function leaves is what it makes of the seed or of the error code. -/
theorem bitcoinPqcKeygenAllocated_reading (E : Build) {cpk csk : List UInt8} (hne : pk ≠ sk)
    (hpk : heap.blocks pk = some cpk) (hpklen : cpk.length = slhDsaPublicKeySize)
    (hsk : heap.blocks sk = some csk) (hsklen : csk.length = slhDsaSecretKeySize)
    (T : ThreadState) :
    let r := bitcoinPqcKeygenAllocated E H A (some Keypair.empty) (some randomData)
      randomDataSize (some pk) (some sk) heap T
    let d := deriveKeygenSeedV1 H A randomData randomDataSize heap
    r.heap.answers = d.2.answers ∧
      (r.error, r.keypair.map fun k => k.read r.heap) = keypairOfSeed H d.1 := by
  intro r d
  cases hseed : d.1 with
  | error code => exact bitcoinPqcKeygenAllocated_of_error hmin E hseed T
  | ok seed =>
      exact bitcoinPqcKeygenAllocated_of_ok hmin E hne hpk hpklen hsk hsklen hseed T

end Allocated

/-- A missing buffer is reported after both requests. -/
theorem bitcoinPqcKeygenAllocated_of_missing (E : Build) (randomData : List UInt8)
    (randomDataSize : ℕ) {pk sk : Option ℕ} (hmissing : pk.isNone ∨ sk.isNone) (heap : Heap)
    (T : ThreadState) :
    let r := bitcoinPqcKeygenAllocated E H A (some Keypair.empty) (some randomData)
      randomDataSize pk sk heap T
    r.heap.answers = heap.answers ∧
      (keyBuffersAsks H randomData randomDataSize).Runs [pk.isSome, sk.isSome]
        (r.error, r.keypair.map fun k => k.read r.heap) := by
  have hread (h : Heap) : Keypair.empty.read h = Keypair.emptyReading :=
    Keypair.read_eq_emptyReading_iff.mpr rfl
  have hnot : ¬ (pk.isSome = true ∧ sk.isSome = true) := by
    rw [← Option.not_isSome_iff_eq_none.trans Option.isNone_iff_eq_none.symm,
      ← Option.not_isSome_iff_eq_none.trans Option.isNone_iff_eq_none.symm] at hmissing
    exact not_and_or.mpr hmissing
  intro r
  have hr : r = _ := if_pos hmissing
  constructor
  · rw [hr, Heap.answers_free, Heap.answers_free, Heap.answers_zero, Heap.answers_zero]
  · refine Asks.Runs.ask (Asks.Runs.ask ?_)
    rw [if_neg hnot, hr, Option.map_some, hread]
    exact Asks.Runs.done _

theorem bitcoinPqcKeygenAllocated_runs (E : Build) {randomData : List UInt8}
    {randomDataSize : ℕ} (hmin : slhDsaKeygenRandomDataMinSize ≤ randomDataSize)
    (hlen : keygenInputSize randomDataSize ≤ sizeMax → randomDataSize ≤ randomData.length)
    (heap : Heap) (T : ThreadState) :
    let pk := heap.malloc A slhDsaPublicKeySize
    let sk := pk.2.malloc A slhDsaSecretKeySize
    let r := bitcoinPqcKeygenAllocated E H A (some Keypair.empty) (some randomData)
      randomDataSize pk.1 sk.1 sk.2 T
    ∃ l, r.heap.answers = heap.answers ++ l ∧
      (keyBuffersAsks H randomData randomDataSize).Runs l
        (r.error, r.keypair.map fun k => k.read r.heap) := by
  intro pk sk r
  have hanswers : sk.2.answers = heap.answers ++ [pk.1.isSome, sk.1.isSome] := by
    rw [Heap.answers_malloc, Heap.answers_malloc, List.append_assoc]
    rfl
  by_cases hmissing : pk.1.isNone ∨ sk.1.isNone
  · obtain ⟨hsame, hruns⟩ := bitcoinPqcKeygenAllocated_of_missing (H := H) (A := A) E
      randomData randomDataSize hmissing sk.2 T
    exact ⟨_, hsame.trans hanswers, hruns⟩
  · obtain ⟨hpk, hsk⟩ := not_or.mp hmissing
    rw [Option.isNone_iff_eq_none] at hpk hsk
    obtain ⟨a, hpk⟩ := Option.ne_none_iff_exists'.mp hpk
    obtain ⟨b, hsk⟩ := Option.ne_none_iff_exists'.mp hsk
    obtain ⟨cpk, hcpk, hpklen⟩ := Heap.blocks_malloc hpk
    obtain ⟨csk, hcsk, hsklen⟩ := Heap.blocks_malloc hsk
    have hlive : pk.2.blocks a ≠ none := by
      rw [hcpk]
      exact Option.some_ne_none cpk
    have hne : a ≠ b := by
      rintro rfl
      exact hlive (Heap.blocks_eq_none_of_malloc hsk)
    have hcpk' := (Heap.blocks_malloc_of_live A slhDsaSecretKeySize hlive).trans hcpk
    obtain ⟨l, hl, hruns⟩ := deriveKeygenSeedV1_runs (H := H) (A := A) hlen sk.2
    obtain ⟨hsame, hread⟩ := bitcoinPqcKeygenAllocated_reading (H := H) (A := A) hmin E hne
      hcpk' hpklen hcsk hsklen T
    refine ⟨true :: true :: l, ?_, ?_⟩
    · simp only [r, hpk, hsk]
      rw [hsame, hl, hanswers, hpk, hsk, List.append_assoc]
      rfl
    · simp only [r, hpk, hsk]
      rw [hread]
      exact Asks.Runs.ask (Asks.Runs.ask (hruns.map (keypairOfSeed H)))

theorem bitcoinPqcKeygen_runs (E : Build) (keypair : Option Keypair)
    {randomData : Option (List UInt8)} {randomDataSize : ℕ}
    (hlen : EntropyInBounds randomData randomDataSize) (heap : Heap) (T : ThreadState) :
    let r := bitcoinPqcKeygen E H A keypair randomData randomDataSize heap T
    ∃ l, r.heap.answers = heap.answers ++ l ∧
      (bitcoinPqcKeygenAsks H (keypair.map fun k => k.read heap) randomData
        randomDataSize).Runs l (r.error, r.keypair.map fun k => k.read r.heap) := by
  rw [bitcoinPqcKeygen, bitcoinPqcKeygenAsks, Option.isNone_map]
  by_cases hnull : keypair.isNone ∨ randomData.isNone
  · rw [if_pos hnull, if_pos hnull]
    exact ⟨[], (List.append_nil _).symm, Asks.Runs.done _⟩
  obtain ⟨hkeypair, hdata⟩ := not_or.mp hnull
  rw [Option.isNone_iff_eq_none] at hkeypair hdata
  obtain ⟨k, rfl⟩ := Option.ne_none_iff_exists'.mp hkeypair
  obtain ⟨e, rfl⟩ := Option.ne_none_iff_exists'.mp hdata
  have hiff := keypairOutputIsEmpty_iff k
  have hread := Keypair.read_eq_emptyReading_iff (k := k) (h := heap)
  rw [if_neg hnull, if_neg hnull, Option.map_some, Option.all_some]
  by_cases hempty : k = Keypair.empty
  · rw [if_neg (not_not_intro (hiff.mpr hempty)),
      if_neg (not_not_intro (congrArg some (hread.mpr hempty)))]
    subst hempty
    by_cases hmin : randomDataSize < slhDsaKeygenRandomDataMinSize
    · rw [if_pos hmin, if_pos hmin]
      exact ⟨[], (List.append_nil _).symm, Asks.Runs.done _⟩
    · rw [if_neg hmin, if_neg hmin]
      exact bitcoinPqcKeygenAllocated_runs E (not_lt.mp hmin)
        (fun hfits => hlen (not_lt.mp hmin) hfits e rfl) heap T
  · rw [if_pos fun h => hempty (hiff.mp h),
      if_pos fun h => hempty (hread.mp (Option.some.inj h))]
    exact ⟨[], (List.append_nil _).symm, Asks.Runs.done _⟩

end Keygen

end BitcoinPqc
