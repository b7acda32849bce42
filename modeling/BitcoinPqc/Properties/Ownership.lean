import BitcoinPqc.Api.Machine

/-!
# Ownership of the buffers

Every struct is all zero or owns live buffers of the profile sizes, no two structs
share a buffer, and there is no live buffer besides. Every buffer that was released was
live and full of zeros at that moment. `Machine.Owns` is this invariant; each public
call keeps it, whatever it is given and whichever of its requests for memory fail.
-/

namespace BitcoinPqc

variable {E : Build} {H : HashFns} {A : Allocator}

/-- What a live buffer can belong to: a struct, or the seed derivation of a running key
generation. -/
inductive Owner where
  | publicKey (i : ℕ)
  | secretKey (i : ℕ)
  | signature (i : ℕ)
  | input
  deriving DecidableEq

/-- The buffers that the structs own between two calls. -/
def owners (keypairs : ℕ → Keypair) (signatures : ℕ → Signature) :
    Owner → Option (ℕ × ℕ)
  | .publicKey i => (keypairs i).publicKey.map fun a => (a, (keypairs i).publicKeySize)
  | .secretKey i => (keypairs i).secretKey.map fun a => (a, (keypairs i).secretKeySize)
  | .signature i => (signatures i).signature.map fun a => (a, (signatures i).signatureSize)
  | .input => none

/-- All zero, or a public key of 32 bytes and a secret key of 64 bytes. -/
def Keypair.Sized (k : Keypair) : Prop :=
  k = Keypair.empty ∨
    ∃ pk sk, k = ⟨some pk, some sk, slhDsaPublicKeySize, slhDsaSecretKeySize⟩

/-- All zero, or a signature of 3680 bytes. -/
def Signature.Sized (g : Signature) : Prop :=
  g = Signature.empty ∨ ∃ sig, g = ⟨some sig, slhDsaSignatureSize⟩

/-- The ownership invariant. -/
structure Machine.Owns (s : Machine) : Prop where
  keypair : ∀ i, (s.keypairs i).Sized
  signature : ∀ i, (s.signatures i).Sized
  owned : Owned (owners s.keypairs s.signatures) s.heap

/-- Structs that are all zero, before any request for memory. -/
def Machine.start (T : ThreadState) : Machine where
  keypairs := fun _ => Keypair.empty
  signatures := fun _ => Signature.empty
  heap := Heap.empty
  thread := T

theorem Machine.owns_start (T : ThreadState) : (Machine.start T).Owns where
  keypair := fun _ => Or.inl rfl
  signature := fun _ => Or.inl rfl
  owned := by
    have hnone : owners (Machine.start T).keypairs (Machine.start T).signatures =
        fun _ => none := by
      funext x
      cases x <;> rfl
    rw [hnone]
    exact owned_empty

/-!
## The tables after a call
-/

theorem owners_update_keypair (keypairs : ℕ → Keypair) (signatures : ℕ → Signature)
    (i : ℕ) (k : Keypair) :
    owners (Function.update keypairs i k) signatures =
      Function.update
        (Function.update (owners keypairs signatures) (.publicKey i)
          (k.publicKey.map fun a => (a, k.publicKeySize)))
        (.secretKey i) (k.secretKey.map fun a => (a, k.secretKeySize)) := by
  funext x
  cases x with
  | publicKey j =>
      by_cases hj : j = i
      · subst hj
        simp [owners]
      · simp [owners, hj]
  | secretKey j =>
      by_cases hj : j = i
      · subst hj
        simp [owners]
      · simp [owners, hj]
  | signature j => simp [owners]
  | input => simp [owners]

theorem owners_update_signature (keypairs : ℕ → Keypair) (signatures : ℕ → Signature)
    (i : ℕ) (g : Signature) :
    owners keypairs (Function.update signatures i g) =
      Function.update (owners keypairs signatures) (.signature i)
        (g.signature.map fun a => (a, g.signatureSize)) := by
  funext x
  cases x with
  | publicKey j => simp [owners]
  | secretKey j => simp [owners]
  | signature j =>
      by_cases hj : j = i
      · subst hj
        simp [owners]
      · simp [owners, hj]
  | input => simp [owners]

theorem storeStruct_map {α : Type} (table : ℕ → α) (i : Option ℕ) :
    storeStruct table i (i.map table) = table := by
  cases i with
  | none => rfl
  | some i => exact Function.update_eq_self i table

/-!
## What each function does to the heap
-/

section Heap

variable {ι : Type*} [DecidableEq ι] {own : ι → Option (ℕ × ℕ)} {heap : Heap}

/-- The seed derivation releases its buffer on every path. -/
theorem owned_deriveKeygenSeedV1 (hown : Owned own heap) {z : ι} (hz : own z = none)
    (randomData : List UInt8) (randomDataSize : ℕ) :
    Owned own (deriveKeygenSeedV1 H A randomData randomDataSize heap).2 := by
  rcases deriveKeygenSeedV1_cases H A randomData randomDataSize heap with
    ⟨_, hderive⟩ | ⟨_, hnone, hderive⟩ | ⟨_, input, _, hsome, _, hderive⟩
  · rw [hderive]
    exact hown
  · have hmalloc := hown.malloc A (keygenInputSize randomDataSize) hz
    rw [hnone, Option.map_none, Owned.update_none hz] at hmalloc
    rw [hderive]
    exact hmalloc
  · have hdone := hown.malloc_zero_free A (keygenInputSize randomDataSize)
      (keygenInput randomData randomDataSize) hz
    rw [hsome] at hdone
    rw [hderive]
    exact hdone

theorem owned_slhDsaKeygen (hown : Owned own heap) {z : ι} (hz : own z = none)
    (pk : Option (Vector UInt8 32)) (sk : Option (Vector UInt8 64))
    (randomData : Option (List UInt8)) (randomDataSize : ℕ) (T : ThreadState) :
    Owned own (slhDsaKeygen E H A pk sk randomData randomDataSize heap T).val.heap := by
  rw [slhDsaKeygen, slhDsaKeygenImpl.eq_def]
  split
  · next _ _ randomData =>
      have hderive := owned_deriveKeygenSeedV1 (H := H) (A := A) hown hz randomData
        randomDataSize
      split
      · exact hown
      · split
        · next heq =>
            rw [heq] at hderive
            exact hderive
        · next heq =>
            rw [heq] at hderive
            exact hderive
  · exact hown

theorem owned_release {x : ι} {p : Option ℕ} {n : ℕ} (hx : own x = none)
    (hown : Owned (Function.update own x (p.map fun a => (a, n))) heap) :
    Owned own ((heap.zero p n).free p) := by
  have hdone := hown.zero_free (Function.update_self _ _ _)
  rw [Function.update_idem, Owned.update_none hx] at hdone
  exact hdone

theorem owned_release_two {x y : ι} {p q : Option ℕ} {n k : ℕ} (hxy : x ≠ y)
    (hx : own x = none) (hy : own y = none)
    (hown : Owned
      (Function.update (Function.update own x (p.map fun a => (a, n))) y
        (q.map fun a => (a, k))) heap) :
    Owned own ((((heap.zero p n).zero q k).free p).free q) := by
  have hp : Function.update (Function.update own x (p.map fun a => (a, n))) y
      (q.map fun a => (a, k)) x = p.map fun a => (a, n) := by
    rw [Function.update_of_ne hxy, Function.update_self]
  have hdone := hown.zero_free_two hxy hp (Function.update_self _ _ _)
  rw [Function.update_comm hxy.symm, Function.update_idem, Function.update_idem,
    Owned.update_none hx, Owned.update_none hy] at hdone
  exact hdone

/-- With the buffers requested, either both are released again and the struct is
untouched, or the struct takes them. -/
theorem owned_bitcoinPqcKeygenAllocated {x y z : ι} {pk sk : Option ℕ} (hxy : x ≠ y)
    (hzx : z ≠ x) (hzy : z ≠ y) (hx : own x = none) (hy : own y = none)
    (hz : own z = none)
    (hown : Owned
      (Function.update
        (Function.update own x (pk.map fun a => (a, slhDsaPublicKeySize))) y
        (sk.map fun a => (a, slhDsaSecretKeySize))) heap)
    (keypair : Option Keypair) (randomData : Option (List UInt8)) (randomDataSize : ℕ)
    (T : ThreadState) :
    let r := bitcoinPqcKeygenAllocated E H A keypair randomData randomDataSize pk sk heap T
    (r.error ≠ .ok ∧ r.keypair = keypair ∧ Owned own r.heap) ∨
      (r.error = .ok ∧ ∃ pk sk,
        r.keypair = some ⟨some pk, some sk, slhDsaPublicKeySize, slhDsaSecretKeySize⟩ ∧
        Owned
          (Function.update (Function.update own x (some (pk, slhDsaPublicKeySize))) y
            (some (sk, slhDsaSecretKeySize))) r.heap) := by
  have hmemory : BitcoinPqcError.outOfMemory ≠ .ok := by decide
  have hkey : BitcoinPqcError.badKey ≠ .ok := by decide
  intro r
  simp only [r]
  rw [bitcoinPqcKeygenAllocated]
  by_cases hfail : pk.isNone ∨ sk.isNone
  · rw [if_pos hfail]
    exact Or.inl ⟨hmemory, rfl, owned_release_two hxy hx hy hown⟩
  rw [if_neg hfail]
  have hinput : Function.update (Function.update own x
      (pk.map fun a => (a, slhDsaPublicKeySize))) y
      (sk.map fun a => (a, slhDsaSecretKeySize)) z = none := by
    rw [Function.update_of_ne hzy, Function.update_of_ne hzx, hz]
  have hinner := owned_slhDsaKeygen (E := E) (H := H) (A := A) hown hinput
    (some (bytesAt 32 (heap.load pk))) (some (bytesAt 64 (heap.load sk))) randomData
    randomDataSize T
  have hfilled (b c : List UInt8) := (hinner.store pk b).store sk c
  dsimp only
  split
  · split
    · exact Or.inl ⟨hmemory, rfl, owned_release_two hxy hx hy (hfilled _ _)⟩
    · exact Or.inl ⟨hkey, rfl, owned_release_two hxy hx hy (hfilled _ _)⟩
  · cases pk with
    | none => exact absurd (Or.inl rfl) hfail
    | some pk =>
      cases sk with
      | none => exact absurd (Or.inr rfl) hfail
      | some sk => exact Or.inr ⟨rfl, pk, sk, rfl, hfilled _ _⟩

theorem owned_bitcoinPqcKeygen (hown : Owned own heap) {keypair : Option Keypair}
    {x y z : ι} (hxy : x ≠ y) (hzx : z ≠ x) (hzy : z ≠ y) (hz : own z = none)
    (hx : keypair = some Keypair.empty → own x = none)
    (hy : keypair = some Keypair.empty → own y = none)
    (randomData : Option (List UInt8)) (randomDataSize : ℕ) (T : ThreadState) :
    let r := bitcoinPqcKeygen E H A keypair randomData randomDataSize heap T
    (r.error ≠ .ok ∧ r.keypair = keypair ∧ Owned own r.heap) ∨
      (r.error = .ok ∧ ∃ pk sk,
        r.keypair = some ⟨some pk, some sk, slhDsaPublicKeySize, slhDsaSecretKeySize⟩ ∧
        Owned
          (Function.update (Function.update own x (some (pk, slhDsaPublicKeySize))) y
            (some (sk, slhDsaSecretKeySize))) r.heap) := by
  have hrejected : BitcoinPqcError.badArg ≠ .ok := by decide
  intro r
  simp only [r]
  rw [bitcoinPqcKeygen]
  by_cases harg : keypair.isNone ∨ randomData.isNone
  · rw [if_pos harg]
    exact Or.inl ⟨hrejected, rfl, hown⟩
  rw [if_neg harg]
  by_cases hempty : keypair.all keypairOutputIsEmpty = true
  swap
  · rw [if_pos hempty]
    exact Or.inl ⟨hrejected, rfl, hown⟩
  rw [if_neg (not_not_intro hempty)]
  by_cases hsize : randomDataSize < slhDsaKeygenRandomDataMinSize
  · rw [if_pos hsize]
    exact Or.inl ⟨hrejected, rfl, hown⟩
  rw [if_neg hsize]
  have hzero : keypair = some Keypair.empty := by
    cases keypair with
    | none => exact absurd (Or.inl rfl) harg
    | some k => rw [(keypairOutputIsEmpty_iff k).mp hempty]
  have hpk := hown.malloc A slhDsaPublicKeySize (hx hzero)
  have hsk := hpk.malloc A slhDsaSecretKeySize (x := y)
    ((Function.update_of_ne hxy.symm _ _).trans (hy hzero))
  exact owned_bitcoinPqcKeygenAllocated hxy hzx hzy (hx hzero) (hy hzero) hz hsk keypair
    randomData randomDataSize T

theorem owned_bitcoinPqcKeypairFree (hown : Owned own heap) {k : Keypair} {x y : ι}
    (hxy : x ≠ y) (hx : own x = k.publicKey.map fun a => (a, k.publicKeySize))
    (hy : own y = k.secretKey.map fun a => (a, k.secretKeySize)) :
    Owned (Function.update (Function.update own x none) y none)
      (bitcoinPqcKeypairFree (some k) heap).2 := by
  refine (hown.zero_free hx).zero_free ?_
  rw [Function.update_of_ne hxy.symm, hy]

theorem owned_bitcoinPqcSignAllocated {x : ι} {sig : Option ℕ} (hx : own x = none)
    (hown : Owned (Function.update own x (sig.map fun a => (a, slhDsaSignatureSize))) heap)
    (secretKey : List UInt8) (secretKeySize : ℕ) (messagePtr : List UInt8)
    (messageSize : ℕ) (signature : Option Signature) (stats : Option SignStats)
    (T : ThreadState) :
    let r := bitcoinPqcSignAllocated E H secretKey secretKeySize messagePtr messageSize
      signature stats sig heap T
    (r.error ≠ .ok ∧ r.signature = signature ∧ Owned own r.heap) ∨
      (r.error = .ok ∧ ∃ sig, r.signature = some ⟨some sig, slhDsaSignatureSize⟩ ∧
        Owned (Function.update own x (some (sig, slhDsaSignatureSize))) r.heap) := by
  have hmemory : BitcoinPqcError.outOfMemory ≠ .ok := by decide
  have hlimit : BitcoinPqcError.signingLimit ≠ .ok := by decide
  have hkey : BitcoinPqcError.badKey ≠ .ok := by decide
  have hsignature : BitcoinPqcError.badSignature ≠ .ok := by decide
  intro r
  simp only [r]
  rw [bitcoinPqcSignAllocated]
  cases sig with
  | none =>
      rw [Option.map_none, Owned.update_none hx] at hown
      rw [if_pos (by rfl)]
      exact Or.inl ⟨hmemory, rfl, hown⟩
  | some sig =>
      rw [if_neg (show ¬ (some sig).isNone = true from Bool.false_ne_true)]
      have hfilled (b : List UInt8) := hown.store (some sig) b
      have hreleased (b : List UInt8) := owned_release hx (hfilled b)
      dsimp only
      split
      · split
        · exact Or.inl ⟨hlimit, rfl, hreleased _⟩
        · split
          · exact Or.inl ⟨hkey, rfl, hreleased _⟩
          · exact Or.inl ⟨hsignature, rfl, hreleased _⟩
      · next hlen =>
          split
          · exact Or.inl ⟨hsignature, rfl, hreleased _⟩
          · refine Or.inr ⟨rfl, sig, ?_, hfilled _⟩
            have hsize := not_not.mp (not_or.mp hlen).2
            simp only [hsize]

/-- Either the struct is untouched and there is no new buffer, or the struct was all
zero and takes the new buffer. -/
theorem owned_bitcoinPqcSignImpl (hown : Owned own heap) {signature : Option Signature}
    {x : ι} (hx : signature = some Signature.empty → own x = none)
    (secretKey : Option (List UInt8)) (secretKeySize : ℕ)
    (message : Option (List UInt8)) (messageSize : ℕ) (stats : Option SignStats)
    (T : ThreadState) :
    let r := bitcoinPqcSignImpl E H A secretKey secretKeySize message messageSize signature
      stats heap T
    (r.error ≠ .ok ∧ r.signature = signature ∧ Owned own r.heap) ∨
      (r.error = .ok ∧ ∃ sig, r.signature = some ⟨some sig, slhDsaSignatureSize⟩ ∧
        Owned (Function.update own x (some (sig, slhDsaSignatureSize))) r.heap) := by
  have hrejected : BitcoinPqcError.badArg ≠ .ok := by decide
  have hkey : BitcoinPqcError.badKey ≠ .ok := by decide
  intro r
  simp only [r]
  rw [bitcoinPqcSignImpl]
  by_cases harg : secretKey.isNone ∨ signature.isNone
  · rw [if_pos harg]
    exact Or.inl ⟨hrejected, rfl, hown⟩
  rw [if_neg harg]
  by_cases hmessage : message.isNone ∧ messageSize ≠ 0
  · rw [if_pos hmessage]
    exact Or.inl ⟨hrejected, rfl, hown⟩
  rw [if_neg hmessage]
  by_cases hempty : signature.all signatureOutputIsEmpty = true
  swap
  · rw [if_pos hempty]
    exact Or.inl ⟨hrejected, rfl, hown⟩
  rw [if_neg (not_not_intro hempty)]
  by_cases hsize : secretKeySize ≠ slhDsaSecretKeySize
  · rw [if_pos hsize]
    exact Or.inl ⟨hkey, rfl, hown⟩
  rw [if_neg hsize]
  have hzero : signature = some Signature.empty := by
    cases signature with
    | none => exact absurd (Or.inr rfl) harg
    | some g => rw [(signatureOutputIsEmpty_iff g).mp hempty]
  exact owned_bitcoinPqcSignAllocated (hx hzero)
    (hown.malloc A slhDsaSignatureSize (hx hzero)) _ _ _ _ _ _ _

end Heap

/-!
## Every call keeps the invariant
-/

namespace Machine

variable {s : Machine}

theorem Owns.of_heap (hs : s.Owns) {heap : Heap}
    (hown : Owned (owners s.keypairs s.signatures) heap) (T : ThreadState) :
    Owns { s with heap := heap, thread := T } :=
  ⟨hs.keypair, hs.signature, hown⟩

/-- A struct that takes the two buffers which the table lists for it owns them. -/
theorem Owns.of_keypair (hs : s.Owns) {heap : Heap} {i : ℕ} {k : Keypair}
    (hk : k.Sized)
    (hown : Owned
      (Function.update
        (Function.update (owners s.keypairs s.signatures) (.publicKey i)
          (k.publicKey.map fun a => (a, k.publicKeySize)))
        (.secretKey i) (k.secretKey.map fun a => (a, k.secretKeySize))) heap)
    (T : ThreadState) :
    Owns
      { s with
        keypairs := Function.update s.keypairs i k
        heap := heap
        thread := T } where
  keypair := (Function.forall_update_iff s.keypairs fun _ k => k.Sized).mpr
    ⟨hk, fun j _ => hs.keypair j⟩
  signature := hs.signature
  owned := by
    rw [owners_update_keypair]
    exact hown

theorem Owns.of_signature (hs : s.Owns) {heap : Heap} {i : ℕ} {g : Signature}
    (hg : g.Sized)
    (hown : Owned
      (Function.update (owners s.keypairs s.signatures) (.signature i)
        (g.signature.map fun a => (a, g.signatureSize))) heap)
    (T : ThreadState) :
    Owns
      { s with
        signatures := Function.update s.signatures i g
        heap := heap
        thread := T } where
  keypair := hs.keypair
  signature := (Function.forall_update_iff s.signatures fun _ g => g.Sized).mpr
    ⟨hg, fun j _ => hs.signature j⟩
  owned := by
    rw [owners_update_signature]
    exact hown

/-- A call reports an error only when it leaves every struct as it was. -/
def Unchanged (s : Machine) (r : Outcome × Machine) : Prop :=
  ∀ error stats, r.1 = .error error stats → error ≠ .ok →
    r.2.keypairs = s.keypairs ∧ r.2.signatures = s.signatures

theorem unchanged_of_structs {r : Outcome × Machine} (hkeypairs : r.2.keypairs = s.keypairs)
    (hsignatures : r.2.signatures = s.signatures) : s.Unchanged r :=
  fun _ _ _ _ => ⟨hkeypairs, hsignatures⟩

theorem step_keygen (hs : s.Owns) (keypair : Option ℕ) (randomData : Option (List UInt8))
    (randomDataSize : ℕ) :
    (s.step E H A (.keygen keypair randomData randomDataSize)).2.Owns ∧
      s.Unchanged (s.step E H A (.keygen keypair randomData randomDataSize)) := by
  cases keypair with
  | none =>
      have hnull : bitcoinPqcKeygen E H A (none.map s.keypairs) randomData randomDataSize
          s.heap s.thread = ⟨.badArg, none, s.heap, s.thread⟩ := if_pos (Or.inl rfl)
      rw [step, hnull]
      exact ⟨hs, unchanged_of_structs rfl rfl⟩
  | some i =>
      have hpk : some (s.keypairs i) = some Keypair.empty →
          owners s.keypairs s.signatures (.publicKey i) = none := by
        intro hi
        simp only [owners, Option.some.inj hi]
        rfl
      have hsk : some (s.keypairs i) = some Keypair.empty →
          owners s.keypairs s.signatures (.secretKey i) = none := by
        intro hi
        simp only [owners, Option.some.inj hi]
        rfl
      have hcases := owned_bitcoinPqcKeygen (E := E) (H := H) (A := A) hs.owned
        (x := .publicKey i) (y := .secretKey i) (z := .input) (by simp) (by simp) (by simp)
        rfl hpk hsk randomData randomDataSize s.thread
      rw [step, Option.map_some]
      rcases hcases with ⟨herror, hkeypair, hown⟩ | ⟨herror, pk, sk, hkeypair, hown⟩
      · have hkept : storeStruct s.keypairs (some i)
            (bitcoinPqcKeygen E H A (some (s.keypairs i)) randomData randomDataSize s.heap
              s.thread).keypair = s.keypairs := by
          rw [hkeypair]
          exact storeStruct_map s.keypairs (some i)
        dsimp only
        rw [hkept]
        exact ⟨hs.of_heap hown _, unchanged_of_structs rfl rfl⟩
      · dsimp only
        rw [hkeypair]
        refine ⟨hs.of_keypair (Or.inr ⟨pk, sk, rfl⟩) hown _, ?_⟩
        intro error stats heq hne
        cases heq
        exact absurd herror hne

theorem step_signImpl (hs : s.Owns) (secretKey : Option (List UInt8)) (secretKeySize : ℕ)
    (message : Option (List UInt8)) (messageSize : ℕ) (signature : Option ℕ)
    (stats : Option SignStats) :
    let r := bitcoinPqcSignImpl E H A secretKey secretKeySize message messageSize
      (signature.map s.signatures) stats s.heap s.thread
    Owns
        { s with
          signatures := storeStruct s.signatures signature r.signature
          heap := r.heap
          thread := r.T } ∧
      (r.error ≠ .ok → storeStruct s.signatures signature r.signature = s.signatures) := by
  intro r
  cases signature with
  | none =>
      have hnull : r = ⟨.badArg, none, stats, s.heap, s.thread⟩ := if_pos (Or.inr rfl)
      rw [hnull]
      exact ⟨hs, fun _ => rfl⟩
  | some i =>
      have hempty (hi : some (s.signatures i) = some Signature.empty) :
          owners s.keypairs s.signatures (.signature i) = none := by
        simp only [owners, Option.some.inj hi]
        rfl
      rcases owned_bitcoinPqcSignImpl (E := E) (H := H) (A := A) hs.owned hempty secretKey
        secretKeySize message messageSize stats s.thread with
        ⟨herror, hsignature, hown⟩ | ⟨herror, sig, hsignature, hown⟩
      · have hkept : storeStruct s.signatures (some i) r.signature = s.signatures := by
          rw [show r.signature = some (s.signatures i) from hsignature]
          exact storeStruct_map s.signatures (some i)
        rw [hkept]
        exact ⟨hs.of_heap hown _, fun _ => rfl⟩
      · rw [show r.signature = some ⟨some sig, slhDsaSignatureSize⟩ from hsignature]
        exact ⟨hs.of_signature (Or.inr ⟨sig, rfl⟩) hown _, fun hne => absurd herror hne⟩

theorem step_owns (hs : s.Owns) (c : Call) :
    (s.step E H A c).2.Owns ∧ s.Unchanged (s.step E H A c) := by
  cases c with
  | keygen keypair randomData randomDataSize =>
      exact step_keygen hs keypair randomData randomDataSize
  | keypairFree keypair =>
      refine ⟨?_, fun _ _ heq _ => by cases heq⟩
      cases keypair with
      | none => exact hs
      | some i =>
          exact hs.of_keypair (Or.inl rfl)
            (owned_bitcoinPqcKeypairFree hs.owned (by simp) rfl rfl) s.thread
  | secretKeyValidate secretKey secretKeySize =>
      exact ⟨hs.of_heap hs.owned _, unchanged_of_structs rfl rfl⟩
  | sign secretKey secretKeySize message messageSize signature =>
      obtain ⟨howns, hkept⟩ := step_signImpl (E := E) (H := H) (A := A) hs secretKey
        secretKeySize message messageSize signature none
      refine ⟨howns, ?_⟩
      intro error stats heq hne
      cases heq
      exact ⟨rfl, hkept hne⟩
  | signWithStats secretKey secretKeySize message messageSize signature stats =>
      obtain ⟨howns, hkept⟩ := step_signImpl (E := E) (H := H) (A := A) hs secretKey
        secretKeySize message messageSize signature stats
      refine ⟨howns, ?_⟩
      intro error stats heq hne
      cases heq
      exact ⟨rfl, hkept hne⟩
  | signatureFree signature =>
      refine ⟨?_, fun _ _ heq _ => by cases heq⟩
      cases signature with
      | none => exact hs
      | some i => exact hs.of_signature (Or.inl rfl) (hs.owned.zero_free rfl) s.thread
  | verify publicKey publicKeySize message messageSize signature signatureSize =>
      exact ⟨hs.of_heap hs.owned _, unchanged_of_structs rfl rfl⟩
  | slhKeygen pk sk randomData randomDataSize =>
      exact ⟨hs.of_heap (owned_slhDsaKeygen hs.owned (z := .input) rfl pk sk randomData
        randomDataSize s.thread) _, unchanged_of_structs rfl rfl⟩
  | slhSecretKeyValidate sk skSize =>
      exact ⟨hs.of_heap hs.owned _, unchanged_of_structs rfl rfl⟩
  | slhSign sig siglen m mlen sk =>
      exact ⟨hs.of_heap hs.owned _, unchanged_of_structs rfl rfl⟩
  | slhSignWithStats sig siglen m mlen sk stats =>
      exact ⟨hs.of_heap hs.owned _, unchanged_of_structs rfl rfl⟩
  | slhVerify sig siglen m mlen pk =>
      exact ⟨hs.of_heap hs.owned _, unchanged_of_structs rfl rfl⟩
  | slhDerandomize seed m mlen sk =>
      exact ⟨hs.of_heap hs.owned _, unchanged_of_structs rfl rfl⟩

/-- After every run from structs that are all zero, the structs own exactly the live
buffers and every release was of a live buffer full of zeros; and the next call, if it
reports an error, changes no struct. -/
theorem run_owns (E : Build) (H : HashFns) (A : Allocator) (T : ThreadState)
    (calls : List Call) :
    ((start T).run E H A calls).Owns ∧
      ∀ c, ((start T).run E H A calls).Unchanged
        (((start T).run E H A calls).step E H A c) := by
  have hrun : ((start T).run E H A calls).Owns :=
    run_invariant E H A (I := Owns) (fun _ c hs => (step_owns hs c).1) calls (owns_start T)
  exact ⟨hrun, fun c => (step_owns hrun c).2⟩

end Machine

end BitcoinPqc
